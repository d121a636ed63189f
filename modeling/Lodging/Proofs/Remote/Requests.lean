import Lodging.Proofs.Json.Records
import Lodging.Proofs.Text.Forms

/-!
Requests to the inventory as they arrive. What a client writes into the path, the query and the body
of a request is what the service finds there: the room, the stay, the identifier and the order that
the caller named.
-/

namespace Lodging

open Octets (Ascii)

theorem toNat_lt_of_isDigit {c : Char} (h : c.isDigit = true) : c.toNat < 128 := by
  unfold Char.isDigit at h
  have hle : c.val ≤ 57 := by
    simp only [Bool.and_eq_true, decide_eq_true_eq] at h
    exact h.2
  have hnat : c.val.toNat ≤ 57 := UInt32.le_iff_toNat_le.mp hle
  have htoNat : c.toNat = c.val.toNat := rfl
  omega

/-- A digit, or one of the other characters of numbers, dates and identifiers. -/
def Plain (c : Char) : Prop := c.toNat < 128 ∧ c ≠ '%' ∧ c ≠ '/' ∧ c ≠ '?' ∧ c ≠ '#'

theorem plain_of_isDigit {c : Char} (h : c.isDigit = true) : Plain c :=
  ⟨toNat_lt_of_isDigit h, ne_of_isDigit h rfl, ne_of_isDigit h rfl, ne_of_isDigit h rfl,
    ne_of_isDigit h rfl⟩

theorem plain_intDigits (i : Int) : ∀ c ∈ Decimal.intDigits i, Plain c := by
  intro c hc
  unfold Decimal.intDigits at hc
  split at hc
  · rcases List.mem_cons.mp hc with rfl | hc
    · exact ⟨by decide, by decide, by decide, by decide, by decide⟩
    · exact plain_of_isDigit (Decimal.isDigit_of_mem_digits hc)
  · exact plain_of_isDigit (Decimal.isDigit_of_mem_digits hc)

theorem slash_not_mem_intDigits (i : Int) : '/' ∉ Decimal.intDigits i :=
  fun hm => (plain_intDigits i _ hm).2.2.1 rfl

theorem ascii_date (d : Date) : Ascii d.chars := by
  have hpadded : ∀ (width n : Nat), ∀ c ∈ Decimal.padded width n, c.toNat < 128 :=
    fun _ _ _ hc => toNat_lt_of_isDigit (Decimal.isDigit_of_mem_padded hc)
  have hyear : ∀ c ∈ Date.yearDigits d.year, c.toNat < 128 := by
    intro c hc
    unfold Date.yearDigits at hc
    simp only at hc
    split at hc
    · rcases List.mem_cons.mp hc with rfl | hc
      · decide
      · exact hpadded _ _ c hc
    · split at hc
      · rcases List.mem_cons.mp hc with rfl | hc
        · decide
        · exact hpadded _ _ c hc
      · exact hpadded _ _ c hc
  intro c hc
  unfold Date.chars at hc
  simp only [List.mem_append, List.mem_cons] at hc
  rcases hc with (hc | rfl | hc) | rfl | hc
  · exact hyear c hc
  · decide
  · exact hpadded _ _ c hc
  · decide
  · exact hpadded _ _ c hc

theorem ascii_uid (u : Uid) : Ascii u.chars := by
  have hdigit : ∀ d : Fin 16, (Hex.lower d.val).toNat < 128 := by decide
  have hdigits : ∀ c ∈ u.digits.map (Hex.lower ·.val), c.toNat < 128 := by
    intro c hc
    obtain ⟨d, -, rfl⟩ := List.mem_map.mp hc
    exact hdigit d
  have hpart : ∀ (n k : Nat), ∀ c ∈ ((u.digits.map (Hex.lower ·.val)).drop n).take k,
      c.toNat < 128 := fun _ _ c hc => hdigits c (List.mem_of_mem_drop (List.mem_of_mem_take hc))
  intro c hc
  unfold Uid.chars Uid.hyphenate at hc
  simp only [List.mem_append, List.mem_cons] at hc
  rcases hc with ((((hc | rfl | hc) | rfl | hc) | rfl | hc) | rfl | hc)
  · exact hdigits c (List.mem_of_mem_take hc)
  · decide
  · exact hpart _ _ c hc
  · decide
  · exact hpart _ _ c hc
  · decide
  · exact hpart _ _ c hc
  · decide
  · exact hdigits c (List.mem_of_mem_drop hc)

namespace Request

theorem afterScheme?_append {scheme rest : List Char} (h : ':' ∉ scheme) :
    afterScheme? (scheme ++ ':' :: '/' :: '/' :: rest) = some rest := by
  induction scheme with
  | nil => rfl
  | cons c scheme ih =>
    rw [List.mem_cons, not_or] at h
    rw [List.cons_append, afterScheme?.eq_def]
    split
    · next heq =>
      injection heq with hc _
      exact absurd hc.symm h.1
    · next heq =>
      injection heq with _ hs
      rw [← hs]
      exact ih h.2
    · next heq => cases heq

theorem takeWhile_of_not_mem {c : Char} {s : List Char} (h : c ∉ s) :
    s.takeWhile (· ≠ c) = s := by
  have happend : (s ++ []).takeWhile (· ≠ c) = s ++ [].takeWhile (· ≠ c) :=
    List.takeWhile_append_of_pos (decide_ne_of_not_mem h)
  rwa [List.takeWhile_nil, List.append_nil] at happend

/-- An address that begins with its path is its own. -/
theorem addressOf_path {s : List Char} (hhead : s.head? = some '/') (hs : '#' ∉ s) :
    addressOf s = s := by
  unfold addressOf
  rw [takeWhile_of_not_mem hs]
  simp [hhead]

end Request

namespace Remote

open Percent (form)

variable {p : Peer}

/-- Below the root of a server a path stays what it is. -/
theorem Peer.AtRoot.target (h : p.AtRoot) {path : String} (hhead : path.toList.head? = some '/')
    (hpath : '#' ∉ path.toList) : p.target path = path := by
  obtain ⟨scheme, authority, hbase, hscheme, hauthority⟩ := h
  obtain ⟨s, hs⟩ : ∃ s, path.toList = '/' :: s := List.head?_eq_some_iff.mp hhead
  have hwhole : (p.base ++ path).toList =
      scheme ++ ':' :: '/' :: '/' :: (authority ++ path.toList) := by
    rw [String.toList_append, hbase]
    simp
  have hfragment : '#' ∉ scheme ++ ':' :: '/' :: '/' :: (authority ++ path.toList) := by
    simp only [List.mem_append, List.mem_cons, not_or]
    exact ⟨fun hm => (hscheme _ hm).2.2 rfl, by decide, by decide, by decide,
      fun hm => (hauthority _ hm).2.2 rfl, hpath⟩
  -- the address has a scheme, so it is neither a path nor a star
  have hbegins : (scheme ++ ':' :: '/' :: '/' :: (authority ++ path.toList)).head? ≠ some '/' := by
    cases scheme with
    | nil => simp
    | cons c rest =>
      intro heq
      exact (hscheme c List.mem_cons_self).2.1 (Option.some.inj heq)
  have hstar : scheme ++ ':' :: '/' :: '/' :: (authority ++ path.toList) ≠ ['*'] := by
    intro heq
    have hlength := congrArg List.length heq
    simp at hlength
    omega
  have hafter : Request.afterScheme? (scheme ++ ':' :: '/' :: '/' :: (authority ++ path.toList)) =
      some (authority ++ path.toList) :=
    Request.afterScheme?_append fun hm => (hscheme _ hm).1 rfl
  -- the first slash behind the scheme is that of the path
  have hdrop : (authority ++ path.toList).dropWhile (fun c => c ≠ '/' && c ≠ '?') =
      path.toList := by
    rw [List.dropWhile_append_of_pos, hs]
    · simp
    · intro c hc
      have hplain := hauthority c hc
      simp [hplain.1, hplain.2.1]
  have haddress : Request.addressOf (p.base ++ path).toList = path.toList := by
    rw [hwhole]
    unfold Request.addressOf
    simp only [Request.takeWhile_of_not_mem hfragment, hafter, hbegins, hstar, decide_false,
      Bool.or_self, Bool.false_eq_true, if_false, Option.map_some, hdrop]
    rw [hs]
    rfl
  unfold Peer.target
  rw [haddress, String.ofList_toList]

section Arrival

variable {target : String} {path query : List Char} (hroot : p.AtRoot)
  (hhead : path.head? = some '/') (hpath : '?' ∉ path) (hfragment : '#' ∉ path)

include hroot hhead hpath hfragment

/-- A path and a query arrive as they were sent. -/
theorem arrives_query (h : target.toList = path ++ '?' :: query) (hquery : '#' ∉ query)
    (r : RequestId) (method body : String) (headers : List (String × String)) :
    (signed p r method target body headers).path = path ∧
      (signed p r method target body headers).query = query := by
  have hwhole : '#' ∉ target.toList := by
    rw [h, List.mem_append, List.mem_cons, not_or, not_or]
    exact ⟨hfragment, by decide, hquery⟩
  have hbegins : target.toList.head? = some '/' := by
    rw [h, List.head?_append, hhead]
    rfl
  have haddress : (signed p r method target body headers).address = path ++ '?' :: query := by
    change Request.addressOf (p.target target).toList = _
    rw [hroot.target hbegins hwhole, Request.addressOf_path hbegins hwhole, h]
  -- the first question mark is the one behind the path
  have hall := decide_ne_of_not_mem hpath
  constructor
  · unfold Request.path
    rw [haddress, List.takeWhile_append_of_pos hall]
    simp
  · unfold Request.query
    rw [haddress, List.dropWhile_append_of_pos hall]
    simp

/-- So does a path without a query. -/
theorem arrives_bare (h : target.toList = path) (r : RequestId) (method body : String)
    (headers : List (String × String)) :
    (signed p r method target body headers).path = path := by
  subst h
  change (Request.addressOf (p.target target).toList).takeWhile (· ≠ '?') = _
  rw [hroot.target hhead hfragment, Request.addressOf_path hhead hfragment]
  exact Request.takeWhile_of_not_mem hpath

end Arrival

/-- The path to something of a room. -/
def roomPath (room : RoomId) (last : String) : List Char :=
  "/api/rooms/".toList ++ (Decimal.intDigits room.number ++ last.toList)

theorem not_mem_roomPath {c : Char} (room : RoomId) {last : String} (hc : ¬ Plain c)
    (hfirst : c ∉ "/api/rooms/".toList) (hlast : c ∉ last.toList) : c ∉ roomPath room last := by
  unfold roomPath
  simp only [List.mem_append, not_or]
  exact ⟨hfirst, fun hm => hc (plain_intDigits _ c hm), hlast⟩

theorem toList_roomPath (room : RoomId) (last : String) :
    ("/api/rooms/" ++ toString room ++ last).toList = roomPath room last := by
  have hroom : (toString room).toList = Decimal.intDigits room.number := String.toList_ofList
  unfold roomPath
  rw [String.toList_append, String.toList_append, hroom, List.append_assoc]

theorem path_confirmRequest (hroot : p.AtRoot) (room : RoomId) (order : LockOrder) :
    (confirmRequest p room order).path = roomPath room "/confirm-availability" := by
  apply arrives_bare hroot
  · rfl
  · exact not_mem_roomPath room (fun h => h.2.2.2.1 rfl) (by decide) (by decide)
  · exact not_mem_roomPath room (fun h => h.2.2.2.2 rfl) (by decide) (by decide)
  · exact toList_roomPath room "/confirm-availability"

theorem path_releaseRequest (hroot : p.AtRoot) (room : RoomId) (uid : Uid) (r : RequestId) :
    (releaseRequest p room uid r).path = roomPath room "/release" ∧
      (releaseRequest p room uid r).query = form [("bookingId", uid.text)] := by
  have htarget : (s!"/api/rooms/{room}/release?" ++
      String.ofList (form [("bookingId", uid.text)])).toList =
        roomPath room "/release" ++ '?' :: form [("bookingId", uid.text)] := by
    have hmark : "/release?".toList = "/release".toList ++ ['?'] := rfl
    have hpath := toList_roomPath room "/release?"
    rw [String.toList_append, String.toList_ofList]
    change ("/api/rooms/" ++ toString room ++ "/release?").toList ++ _ = _
    rw [hpath]
    unfold roomPath
    rw [hmark]
    simp only [List.append_assoc, List.singleton_append]
  apply arrives_query hroot
  · rfl
  · exact not_mem_roomPath room (fun h => h.2.2.2.1 rfl) (by decide) (by decide)
  · exact not_mem_roomPath room (fun h => h.2.2.2.2 rfl) (by decide) (by decide)
  · exact htarget
  · exact Percent.not_mem_form (by decide) (by decide) (by decide) _

theorem path_recommendRequest (hroot : p.AtRoot) (stay : Stay) (r : RequestId) :
    (recommendRequest p stay r).path = "/api/rooms/recommend".toList ∧
      (recommendRequest p stay r).query =
        form [("start", stay.arrival.text), ("end", stay.departure.text)] := by
  apply arrives_query hroot
  · rfl
  · decide
  · decide
  · have hform := @String.toList_ofList
      (form [("start", stay.arrival.text), ("end", stay.departure.text)])
    have hmark : "/api/rooms/recommend?".toList = "/api/rooms/recommend".toList ++ ['?'] := rfl
    rw [String.toList_append, hform, hmark, List.append_assoc, List.singleton_append]
  · exact Percent.not_mem_form (by decide) (by decide) (by decide) _

end Remote

end Lodging
