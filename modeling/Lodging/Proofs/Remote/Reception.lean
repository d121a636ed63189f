import Lodging.Proofs.Remote.Requests
import Lodging.World.Likeness

/-!
How the inventory takes the requests of the bookings. Each goes along the route that is meant for
it, and its handler reads from path, query and body what the caller passed, and from the headers the
token.
-/

namespace Lodging

open Octets (Ascii)
open Percent (form)

namespace Service

theorem find?_of_splitOn {s : Service} {path : List Char} {parts : List (List Char)}
    (h : path.splitOn '/' = [] :: parts) :
    s.find? path = s.routes.findSome? fun r => (Route.matchSegments r.path parts).map (r, ·) := by
  unfold find? Route.params?
  rw [h]

theorem find?_recommendation (token : String) :
    (inventory token).find? "/api/rooms/recommend".toList = some (recommendation, []) := by
  rfl

theorem splitOn_room {s t : List Char} (hs : '/' ∉ s) (ht : '/' ∉ t) :
    ("/api/rooms/".toList ++ (s ++ '/' :: t)).splitOn '/' =
      [[], "api".toList, "rooms".toList, s, t] := by
  have hparts : ∀ part ∈ [[], "api".toList, "rooms".toList, s, t], '/' ∉ part := by
    simp only [List.mem_cons, List.not_mem_nil, or_false]
    rintro part (rfl | rfl | rfl | rfl | rfl)
    · decide
    · decide
    · decide
    · exact hs
    · exact ht
  have happend : "/api/rooms/".toList ++ (s ++ '/' :: t) =
      ['/'].intercalate [[], "api".toList, "rooms".toList, s, t] := by
    simp [List.intercalate]
  rw [happend]
  exact List.splitOn_intercalate '/' hparts (by simp)

/-- A path to something of a room passes the routes before the last two. -/
theorem find?_room (token : String) {s t : List Char} (hs : '/' ∉ s) (ht : '/' ∉ t) :
    (inventory token).find? ("/api/rooms/".toList ++ (s ++ '/' :: t)) =
      [roomLocking token, roomRelease token].findSome? fun r =>
        (Route.matchSegments r.path ["api".toList, "rooms".toList, s, t]).map (r, ·) := by
  have hroutes : (inventory token).routes = (common ++ [roomList]) ++
      recommendation :: singleRoom :: [roomLocking token, roomRelease token] := rfl
  have hbefore : (common ++ [roomList]).findSome? (fun r =>
      (Route.matchSegments r.path ["api".toList, "rooms".toList, s, t]).map (r, ·)) = none := rfl
  have hrecommendation : Route.matchSegments recommendation.path
      ["api".toList, "rooms".toList, s, t] = none := ite_self none
  have hsingle : Route.matchSegments singleRoom.path
      ["api".toList, "rooms".toList, s, t] = none := ite_self none
  -- no route before the last two has as many segments
  rw [find?_of_splitOn (splitOn_room hs ht), hroutes, List.findSome?_append, hbefore,
    List.findSome?_cons, hrecommendation, List.findSome?_cons, hsingle]
  rfl

theorem find?_roomLocking (token : String) {s : List Char} (hs : '/' ∉ s) :
    (inventory token).find? ("/api/rooms/".toList ++ (s ++ "/confirm-availability".toList)) =
      some (roomLocking token, [s]) := by
  have hmatch : Route.matchSegments (roomLocking token).path
      ["api".toList, "rooms".toList, s, "confirm-availability".toList] = some [s] := by
    simp [roomLocking, Route.matchSegments]
  apply (find?_room token (t := "confirm-availability".toList) hs (by decide)).trans
  rw [List.findSome?_cons, hmatch]
  rfl

theorem find?_roomRelease (token : String) {s : List Char} (hs : '/' ∉ s) :
    (inventory token).find? ("/api/rooms/".toList ++ (s ++ "/release".toList)) =
      some (roomRelease token, [s]) := by
  have hlocking : Route.matchSegments (roomLocking token).path
      ["api".toList, "rooms".toList, s, "release".toList] = none := by
    simp [roomLocking, Route.matchSegments]
  have hmatch : Route.matchSegments (roomRelease token).path
      ["api".toList, "rooms".toList, s, "release".toList] = some [s] := by
    simp [roomRelease, Route.matchSegments]
  apply (find?_room token (t := "release".toList) hs (by decide)).trans
  rw [List.findSome?_cons, hlocking, List.findSome?_cons, hmatch]
  rfl

end Service

namespace Exchange

variable {x : Exchange} {name : String} {pairs : List (String × String)}

/-- A field that a form holds once is read from it. -/
theorem queryField_of_form {α : Type} {read : List Char → Option α} {value : String} {a : α}
    (hquery : x.request.query = form pairs)
    (hascii : ∀ p ∈ pairs, Ascii p.1.toList ∧ Ascii p.2.toList)
    (hfield : pairs.filter (fun p => p.1 = name) = [(name, value)])
    (hread : read value.toList = some a) : x.queryField name read = .ok (some a) := by
  have hfilter : (pairs.map fun p => (p.1.toList, p.2.toList)).filter (fun p => p.1 = name.toList) =
      [(name.toList, value.toList)] := by
    have hsame : ((fun p => decide (p.1 = name.toList)) ∘ fun p : String × String =>
        (p.1.toList, p.2.toList)) = fun p => decide (p.1 = name) := by
      funext p
      simp [String.toList_inj]
    rw [List.filter_map, hsame, hfield]
    rfl
  unfold queryField
  rw [hquery, Percent.pairs_form hascii]
  simp only [hfilter, hread]

theorem number_of_intDigits {i : Int} (h : Decimal.fits64 i = true)
    (hparams : x.params = [Decimal.intDigits i]) : x.number = .ok i := by
  have hascii : Ascii (Decimal.intDigits i) := fun c hc => (plain_intDigits i c hc).1
  have hpercent : '%' ∉ Decimal.intDigits i := fun hm => (plain_intDigits i _ hm).2.1 rfl
  unfold number
  rw [hparams]
  simp only [List.head?_cons, Option.bind_some, Percent.decode?_of_ascii hascii hpercent,
    Decimal.int64?_intDigits h]

/-- The dates of a stay, as a form has them. -/
theorem stay_of_form {s : Stay}
    (hquery : x.request.query = form [("start", s.arrival.text), ("end", s.departure.text)]) :
    x.stay = .ok s := by
  have hdate : ∀ d : Date, Ascii d.text.toList ∧ Date.ofChars? d.text.toList = some d := by
    intro d
    have htext : d.text.toList = d.chars := String.toList_ofList
    rw [htext]
    exact ⟨ascii_date d, Date.ofChars?_chars d⟩
  have hascii : ∀ p ∈ [("start", s.arrival.text), ("end", s.departure.text)],
      Ascii p.1.toList ∧ Ascii p.2.toList := by
    have hstart : Ascii "start".toList := Octets.ascii_of_all (by decide)
    have hend : Ascii "end".toList := Octets.ascii_of_all (by decide)
    simp only [List.mem_cons, List.not_mem_nil, or_false]
    rintro p (rfl | rfl)
    · exact ⟨hstart, (hdate _).1⟩
    · exact ⟨hend, (hdate _).1⟩
  have hstart : x.queryField "start" Date.ofChars? = .ok (some s.arrival) :=
    queryField_of_form hquery hascii (by simp) (hdate _).2
  have hend : x.queryField "end" Date.ofChars? = .ok (some s.departure) :=
    queryField_of_form hquery hascii (by simp) (hdate _).2
  have hdates : Stay.ofDates s.arrival s.departure = .ok s := Stay.ofDates_eq_ok.mpr ⟨rfl, rfl⟩
  unfold stay
  rw [hstart, hend]
  change (Stay.ofDates s.arrival s.departure).mapError _ = _
  rw [hdates]
  rfl

theorem releasedUid_of_form {u : Uid} (hquery : x.request.query = form [("bookingId", u.text)]) :
    x.releasedUid = .ok u := by
  have htext : u.text.toList = u.chars := String.toList_ofList
  have hascii : ∀ p ∈ [("bookingId", u.text)], Ascii p.1.toList ∧ Ascii p.2.toList := by
    intro p hp
    have hname : Ascii "bookingId".toList := Octets.ascii_of_all (by decide)
    obtain rfl := List.mem_singleton.mp hp
    rw [htext]
    exact ⟨hname, ascii_uid u⟩
  have hread : Uid.ofChars? u.text.toList = some u := by
    rw [htext]
    exact Uid.ofChars?_chars u
  have hfield : x.queryField "bookingId" Uid.ofChars? = .ok (some u) :=
    queryField_of_form hquery hascii (by simp) hread
  unfold releasedUid
  rw [hfield]
  rfl

end Exchange

namespace Remote

variable {p : Peer}

/-- A token that arrives as it was sent opens the door. -/
theorem authorize_signed (hp : p.Credible) (o : Occasion) (r : RequestId)
    (method target body : String) (headers : List (String × String)) (params : List (List Char)) :
    (⟨o, signed p r method target body headers, params⟩ : Exchange).authorize p.token = .ok () := by
  have hbearer : ("Bearer " ++ p.token).toList = Exchange.bearer ++ p.token.toList :=
    String.toList_append
  have hvisible : ("Bearer " ++ p.token).toList.all Header.visible = true := by
    rw [hbearer, List.all_append, hp.visible, Bool.and_true]
    decide
  have hheader : (signed p r method target body headers).header? Header.authorization =
      some ("Bearer " ++ p.token) := by
    unfold Request.header?
    have hfind : (signed p r method target body headers).headers.find?
        (fun h => Header.sameName h.1 Header.authorization) =
          some (Header.authorization, "Bearer " ++ p.token) :=
      List.find?_cons_of_pos (decide_eq_true rfl)
    rw [hfind]
    exact if_pos hvisible
  have htoken : (⟨o, signed p r method target body headers, params⟩ : Exchange).token? =
      some p.token := by
    have hprefix : Exchange.bearer.isPrefixOf (Exchange.bearer ++ p.token.toList) = true :=
      List.isPrefixOf_iff_prefix.mpr (List.prefix_append ..)
    unfold Exchange.token?
    change ((signed p r method target body headers).header? Header.authorization).bind _ = _
    rw [hheader, Option.bind_some, hbearer, if_pos hprefix, List.drop_left]
    exact congrArg some hp.trimmed_token
  unfold Exchange.authorize
  rw [htoken]
  exact if_pos rfl

end Remote

namespace Remote

variable {p : Peer}

/-- What an order says is found in the body. -/
theorem body_confirmRequest (o : Occasion) (room : RoomId) {order : LockOrder}
    (hsize : (Wire.write order).utf8ByteSize ≤ Exchange.bodyLimit) (params : List (List Char)) :
    (⟨o, confirmRequest p room order, params⟩ : Exchange).body LockOrder = .ok order := by
  have hfind : (confirmRequest p room order).headers.find?
      (fun h => Header.sameName h.1 Header.contentType) =
        some (Header.contentType, "application/json") := by
    have hauthorization : Header.sameName Header.authorization Header.contentType = false := by
      decide +kernel
    have hrequestId : Header.sameName Header.requestId Header.contentType = false := by
      decide +kernel
    unfold confirmRequest signed
    simp only [List.find?_cons, hauthorization, hrequestId]
    rw [show Header.sameName Header.contentType Header.contentType = true from decide_eq_true rfl]
  have hheader : (confirmRequest p room order).header? Header.contentType =
      some "application/json" := by
    unfold Request.header?
    rw [hfind]
    decide +kernel
  have hjson : MediaType.isJson "application/json" = true := by decide +kernel
  unfold Exchange.body
  simp only [hheader, Option.map_some, hjson, Option.getD_some, if_true]
  have hbody : (confirmRequest p room order).body = Wire.write order := rfl
  simp only [hbody, Nat.not_lt.mpr hsize, if_false, Wire.read_write (Wire.faithful_lockOrder order)]

variable (hroot : p.AtRoot)
include hroot

theorem find?_recommendRequest (token : String) (stay : Stay) (r : RequestId) :
    (Service.inventory token).find? (recommendRequest p stay r).path =
      some (Service.recommendation, []) := by
  rw [(path_recommendRequest hroot stay r).1]
  exact Service.find?_recommendation token

theorem find?_confirmRequest (token : String) (room : RoomId) (order : LockOrder) :
    (Service.inventory token).find? (confirmRequest p room order).path =
      some (Service.roomLocking token, [Decimal.intDigits room.number]) := by
  rw [path_confirmRequest hroot]
  exact Service.find?_roomLocking token (slash_not_mem_intDigits _)

theorem find?_releaseRequest (token : String) (room : RoomId) (uid : Uid) (r : RequestId) :
    (Service.inventory token).find? (releaseRequest p room uid r).path =
      some (Service.roomRelease token, [Decimal.intDigits room.number]) := by
  rw [(path_releaseRequest hroot room uid r).1]
  exact Service.find?_roomRelease token (slash_not_mem_intDigits _)

variable (token : String) (o : Occasion)

/-- A request for recommendations is understood. -/
theorem understood_recommend (stay : Stay) (r : RequestId) :
    Understood token o (recommendRequest p stay r) Service.recommendation Exchange.stay stay :=
  ⟨[], find?_recommendRequest hroot token stay r,
    Exchange.stay_of_form (path_recommendRequest hroot stay r).2⟩

variable {room : RoomId} (hroom : Decimal.fits64 room.number = true)
include hroom

/-- So is one for a lock, unless it is too long. -/
theorem understood_confirm {order : LockOrder}
    (hsize : (Wire.write order).utf8ByteSize ≤ Exchange.bodyLimit) :
    Understood token o (confirmRequest p room order) (Service.roomLocking token)
      Exchange.orderedLock (room, order) := by
  let x : Exchange := ⟨o, confirmRequest p room order, [Decimal.intDigits room.number]⟩
  have hnumber : x.number = .ok room.number := Exchange.number_of_intDigits hroom rfl
  have hbody : x.body LockOrder = .ok order := body_confirmRequest o room hsize _
  refine ⟨_, find?_confirmRequest hroot token room order, ?_⟩
  change x.orderedLock = _
  unfold Exchange.orderedLock
  rw [hnumber, hbody]
  rfl

/-- So is one to release a room. -/
theorem understood_release (uid : Uid) (r : RequestId) :
    Understood token o (releaseRequest p room uid r) (Service.roomRelease token)
      Exchange.orderedRelease (room, uid) := by
  let x : Exchange := ⟨o, releaseRequest p room uid r, [Decimal.intDigits room.number]⟩
  have hnumber : x.number = .ok room.number := Exchange.number_of_intDigits hroom rfl
  have huid : x.releasedUid = .ok uid :=
    Exchange.releasedUid_of_form (path_releaseRequest hroot room uid r).2
  refine ⟨_, find?_releaseRequest hroot token room uid r, ?_⟩
  change x.orderedRelease = _
  unfold Exchange.orderedRelease
  rw [hnumber, huid]
  rfl

end Remote

end Lodging
