import Lodging.Proofs.Keeper.Alone
import Lodging.World.Beats

/-!
The course that a policy of repetition takes is known from the outcomes of the attempts. They are
followed from the first on; the number of attempts that are left is what the induction is on.
-/

namespace Lodging.RetryPolicy

section Course

variable {m : Type → Type} [Monad m] [LawfulMonad m] {α : Type} {p : RetryPolicy} {e : Effects m}
  {o : Operation} {touch : ℕ → m Unit} {out : ℕ → Except CallFailure α} {more first before : ℕ}

theorem attemptFrom_of_settles (h : settles (out first)) :
    p.attemptFrom e o (fun n => do touch n; return out n) more first =
      (do touch first; return out first) := by
  rw [attemptFrom_eq, LawfulMonad.bind_assoc]
  apply congrArg (touch first >>= ·)
  funext _
  rw [LawfulMonad.pure_bind]
  cases hr : out first with
  | ok a => rfl
  | error f =>
    have hf : f.retryable = false := by simpa [hr, settles] using h
    simp [hf]

theorem attemptFrom_of_not_settles (h : ¬ settles (out first)) :
    p.attemptFrom e o (fun n => do touch n; return out n) more first =
      (do touch first; p.afterFailure e o (fun n => do touch n; return out n) first more) := by
  rw [attemptFrom_eq, LawfulMonad.bind_assoc]
  apply congrArg (touch first >>= ·)
  funext _
  rw [LawfulMonad.pure_bind]
  cases hr : out first with
  | ok a => simp [hr, settles] at h
  | error f =>
    have hf : f.retryable = true := by simpa [hr, settles] using h
    simp [hf]

theorem afterFailure_succ (touch : ℕ → m Unit) (call : ℕ → m (Except CallFailure α)) :
    p.afterFailure e o call first (more + 1) =
      (do forM (p.pause first) (Beat.play e o touch); p.attemptFrom e o call more (first + 1)) := by
  by_cases h : p.delayAfter first = 0 <;> simp [afterFailure, pause, Beat.play, h]

theorem courseFrom_succ :
    p.courseFrom first (before + 1) =
      .attempt first :: (p.pause first ++ p.courseFrom (first + 1) before) := by
  simp only [courseFrom, List.range'_succ, List.flatMap_cons, List.cons_append, List.append_assoc]
  rw [show first + (before + 1) = first + 1 + before by omega]

theorem forM_courseFrom_succ :
    forM (p.courseFrom first (before + 1)) (Beat.play e o touch) =
      (do
        touch first
        forM (p.pause first) (Beat.play e o touch)
        forM (p.courseFrom (first + 1) before) (Beat.play e o touch)) := by
  rw [courseFrom_succ, List.forM_cons, List.forM_append]
  rfl

/-- Where the first attempts fail in a way that may pass and the next one does not, that one is the
last. -/
theorem attemptFrom_course (hle : before ≤ more)
    (hbefore : ∀ i < before, ¬ settles (out (first + i))) (hlast : settles (out (first + before))) :
    p.attemptFrom e o (fun n => do touch n; return out n) more first =
      (do
        forM (p.courseFrom first before) (Beat.play e o touch)
        return out (first + before)) := by
  induction before generalizing first more with
  | zero =>
    rw [Nat.add_zero] at hlast ⊢
    rw [attemptFrom_of_settles hlast]
    simp [courseFrom, Beat.play]
  | succ before ih =>
    obtain ⟨more, rfl⟩ : ∃ n, more = n + 1 := ⟨more - 1, by omega⟩
    have hfirst : ¬ settles (out first) := hbefore 0 (by omega)
    -- what is left is a run whose first attempt has the next number
    have hshift (i : ℕ) : first + 1 + i = first + (i + 1) := by omega
    have hbefore' : ∀ i < before, ¬ settles (out (first + 1 + i)) := fun i hi => by
      rw [hshift]
      exact hbefore (i + 1) (by omega)
    have hlast' : settles (out (first + 1 + before)) := by rwa [hshift]
    have hrest := ih (Nat.le_of_succ_le_succ hle) hbefore' hlast'
    rw [attemptFrom_of_not_settles hfirst, afterFailure_succ touch, hrest, forM_courseFrom_succ,
      hshift]
    simp only [LawfulMonad.bind_assoc]

/-- Where every attempt fails in a way that may pass, the run gives up after the last. -/
theorem attemptFrom_exhausted (h : ∀ i ≤ more, ¬ settles (out (first + i))) :
    p.attemptFrom e o (fun n => do touch n; return out n) more first =
      (do
        forM (p.courseFrom first more ++ [.exhausted]) (Beat.play e o touch)
        return .error (.unavailable o (first + more))) := by
  induction more generalizing first with
  | zero =>
    have hfirst : ¬ settles (out first) := h 0 (Nat.le_refl 0)
    rw [attemptFrom_of_not_settles hfirst]
    simp [courseFrom, Beat.play, afterFailure]
  | succ more ih =>
    have hfirst : ¬ settles (out first) := h 0 (by omega)
    have hshift (i : ℕ) : first + 1 + i = first + (i + 1) := by omega
    have h' : ∀ i ≤ more, ¬ settles (out (first + 1 + i)) := fun i hi => by
      rw [hshift]
      exact h (i + 1) (by omega)
    have hrest := ih h'
    rw [List.forM_append, LawfulMonad.bind_assoc] at hrest ⊢
    rw [attemptFrom_of_not_settles hfirst, afterFailure_succ touch, hrest, forM_courseFrom_succ,
      hshift]
    simp only [LawfulMonad.bind_assoc]

end Course

variable {α : Type} {p : RetryPolicy} {o : Operation} {out : ℕ → Except CallFailure α}
  {course : List Beat} {result : Except CallFailure α} {k : ℕ}

theorem advance_beat {touch : ℕ → Process Unit}
    (htouch : ∀ n (w : World), ∃ v, (touch n).advance w = (.inl (), v) ∧ v.events = w.events)
    (b : Beat) (w : World) : ∃ v, (b.play Gateway.effects o touch).advance w = (.inl (), v) ∧
      v.events = (b.counts o).reverse ++ w.events := by
  cases b with
  | attempt n => exact htouch n w
  -- a meter or a wait: one action, which the world performs at once
  | _ => exact ⟨_, rfl, rfl⟩

theorem advance_beats {touch : ℕ → Process Unit}
    (htouch : ∀ n (w : World), ∃ v, (touch n).advance w = (.inl (), v) ∧ v.events = w.events)
    (course : List Beat) (w : World) :
    ∃ v, Process.advance (forM course (Beat.play Gateway.effects o touch)) w = (.inl (), v) ∧
      v.events = (course.flatMap (Beat.counts o)).reverse ++ w.events := by
  induction course generalizing w with
  | nil => exact ⟨w, rfl, rfl⟩
  | cons b rest ih =>
    obtain ⟨u, hu, hcount⟩ := advance_beat (o := o) htouch b w
    obtain ⟨v, hv, hrest⟩ := ih u
    refine ⟨v, ?_, ?_⟩
    · rw [List.forM_cons, Process.advance_bind_of_done hu, hv]
    · rw [hrest, hcount, List.flatMap_cons, List.reverse_append, List.append_assoc]

/-- A run that plays its course by any effects also shows it on the meters. -/
theorem Takes.of_plays (h : ∀ (m : Type → Type) [Monad m] [LawfulMonad m] (e : Effects m)
    (touch : ℕ → m Unit), p.run e o (fun n => do touch n; return out n) =
      (do forM course (Beat.play e o touch); return result)) : p.Takes o out course result where
  plays := h
  metered touch htouch w := by
    obtain ⟨v, hv, hcount⟩ := advance_beats (o := o) htouch course w
    refine ⟨v, ?_, hcount⟩
    rw [h, Process.advance_bind_of_done hv]
    rfl

theorem takes_of_settles (hpos : 1 ≤ k) (hle : k ≤ p.maxAttempts) (hk : settles (out k))
    (hbefore : ∀ i, 1 ≤ i → i < k → ¬ settles (out i)) : p.Takes o out (p.course k) (out k) := by
  have hlast : 1 + (k - 1) = k := by omega
  have hbefore' : ∀ i < k - 1, ¬ settles (out (1 + i)) := fun i hi =>
    hbefore (1 + i) (by omega) (by omega)
  have hk' : settles (out (1 + (k - 1))) := by rwa [hlast]
  refine .of_plays fun m _ _ e touch => ?_
  have h : p.attemptFrom e o (fun n => do touch n; return out n) (p.maxAttempts - 1) 1 = _ :=
    attemptFrom_course (by omega) hbefore' hk'
  rwa [hlast] at h

theorem takes_of_exhausted (h : ∀ i, 1 ≤ i → i ≤ p.maxAttempts → ¬ settles (out i)) :
    p.Takes o out (p.course p.maxAttempts ++ [.exhausted])
      (.error (.unavailable o p.maxAttempts)) := by
  have hlast : 1 + (p.maxAttempts - 1) = p.maxAttempts := by
    have hpos := p.attempts_pos
    omega
  have h' : ∀ i ≤ p.maxAttempts - 1, ¬ settles (out (1 + i)) := fun i hi =>
    h (1 + i) (by omega) (by omega)
  refine .of_plays fun m _ _ e touch => ?_
  have hrun : p.attemptFrom e o (fun n => do touch n; return out n) (p.maxAttempts - 1) 1 = _ :=
    attemptFrom_exhausted h'
  rwa [hlast] at hrun

theorem numbers_pause (i : ℕ) : (p.pause i).filterMap Beat.number? = [] := by
  by_cases h : p.delayAfter i = 0 <;> simp [pause, Beat.number?, h]

theorem counts_pause (i : ℕ) : (p.pause i).flatMap (Beat.counts o) = [.retry o] := by
  by_cases h : p.delayAfter i = 0 <;> simp [pause, Beat.counts, h]

theorem numbers_courseFrom (first before : ℕ) :
    (p.courseFrom first before).filterMap Beat.number? = List.range' first (before + 1) := by
  induction before generalizing first with
  | zero => rfl
  | succ before ih =>
    have hrange : List.range' first (before + 1 + 1) =
        first :: List.range' (first + 1) (before + 1) := List.range'_succ
    rw [courseFrom_succ, List.filterMap_cons, List.filterMap_append, numbers_pause, ih, hrange]
    rfl

theorem counts_courseFrom (first before : ℕ) :
    (p.courseFrom first before).flatMap (Beat.counts o) = List.replicate before (.retry o) := by
  induction before generalizing first with
  | zero => rfl
  | succ before ih =>
    rw [courseFrom_succ, List.flatMap_cons, List.flatMap_append, counts_pause, ih,
      List.replicate_succ]
    rfl

theorem getElem?_delayAfter (i : ℕ) (h : p.backoff ≠ []) :
    p.backoff[min (i - 1) (p.backoff.length - 1)]? = some (p.delayAfter i) := by
  have hpos := List.length_pos_of_ne_nil h
  rw [delayAfter, List.getElem?_eq_getElem (by omega)]
  rfl

/-- A run makes its attempts up to the first one that settles the matter, and returns what that one
came to. If none within the bound does, it makes as many as the bound says and gives up. Between two
attempts it counts a repetition and waits for what the list says, and it does nothing after the
last; all attempts have numbers of 32 bits. -/
theorem run_takes_its_course (most : UInt32) (backoff : List ℕ) (o : Operation)
    (out : ℕ → Except CallFailure α) :
    let p := make most.toNat backoff
    let bound := max 1 most.toNat
    (∀ k, 1 ≤ k → k ≤ bound → settles (out k) → (∀ i, 1 ≤ i → i < k → ¬ settles (out i)) →
      p.Takes o out (p.course k) (out k)) ∧
    ((∀ i, 1 ≤ i → i ≤ bound → ¬ settles (out i)) →
      p.Takes o out (p.course bound ++ [.exhausted]) (.error (.unavailable o bound))) ∧
    (∀ i, (backoff = [] → p.delayAfter i = 0) ∧
      (backoff ≠ [] → backoff[min (i - 1) (backoff.length - 1)]? = some (p.delayAfter i))) ∧
    ∀ k, 1 ≤ k → k ≤ bound → (p.course k).filterMap Beat.number? = List.range' 1 k ∧
      (p.course k).flatMap (Beat.counts o) = List.replicate (k - 1) (.retry o) ∧
      k < UInt32.size := by
  intro p bound
  have hbound : p.maxAttempts = bound := Nat.max_comm ..
  refine ⟨fun k hpos hle hk hbefore => ?_, fun h => ?_, fun i => ⟨fun h => ?_, fun h => ?_⟩,
    fun k hpos hle => ⟨?_, ?_, ?_⟩⟩
  · exact takes_of_settles hpos (hbound ▸ hle) hk hbefore
  · rw [← hbound] at h ⊢
    exact takes_of_exhausted h
  · subst h
    rfl
  · exact getElem?_delayAfter (p := p) i h
  · rw [course, numbers_courseFrom, Nat.sub_add_cancel hpos]
  · exact counts_courseFrom 1 (k - 1)
  · have hlt : bound < UInt32.size := Nat.max_lt.mpr ⟨by decide, most.toNat_lt⟩
    exact Nat.lt_of_le_of_lt hle hlt

/-- Three attempts on a connection that is refused. -/
theorem run_takes_its_course_refused :
    (make 3 [200, 500, 1000]).Takes (α := Unit) .confirm
      (fun _ => .error (.transport "connection refused"))
      [.attempt 1, .retrying, .sleep 200, .attempt 2, .retrying, .sleep 500, .attempt 3, .exhausted]
      (.error (.unavailable .confirm 3)) :=
  (run_takes_its_course 3 [200, 500, 1000] .confirm fun _ =>
    .error (.transport "connection refused")).2.1 fun _ _ _ => by decide

end Lodging.RetryPolicy
