import GossipRl.Rpc.EventLoop
import Mathlib.Data.List.Nodup
import Mathlib.Data.List.Perm.Basic

/-!
# Which callback a completion calls

An operation is in the vector, in an entry of the ring, processed, or skipped, and in one place
only. When its completion is processed it has been cleared out of the vector, so whatever lives at
its address by then is another operation. So the completion of an operation with a callback never
calls that callback.
-/

namespace GossipRl
open Support

/-- What the completion should do. -/
def Cqe.expected (cqe : Cqe) : Reaction :=
  if cqe.sqe.op.callback then .invoked cqe.sqe.op.serial cqe.res cqe.sqe.op.userData else .nothing

/-- The operation whose callback was called. -/
def Reaction.called : Reaction → Option Nat
  | .invoked serial _ _ => some serial
  | _ => none

namespace Ring

/-- The operations in the entries. -/
def serials (r : Ring) : List Nat :=
  (r.sq ++ r.inflight ++ r.cq.map Cqe.sqe).map fun sqe => sqe.op.serial

end Ring

namespace EventLoop
variable {ringSize : Nat} {grow : Nat → Nat} {s s' : EventLoop} {e : LoopEvent}

/-- The operations that have not completed yet, or whose completion has not been processed. -/
def waiting (s : EventLoop) : List Nat := s.pendingOps.ops.map (·.serial) ++ s.ring.serials

def done (s : EventLoop) : List Nat := s.processed.map fun p => p.1.sqe.op.serial

/-- Every completion has called the callback of its operation, none has been called twice, and no
operation is lost. -/
structure Delivers (s : EventLoop) : Prop where
  own : ∀ p ∈ s.processed, p.2 = p.1.expected
  once : (s.processed.filterMap fun p => p.2.called).Nodup
  noneLost : ∀ serial < s.submitted, serial ∈ s.waiting ∨ serial ∈ s.done

/-- Where the operations are. -/
def Accounted (s : EventLoop) : Prop :=
  (s.waiting ++ s.done ++ s.skipped.map (·.serial)).Perm (List.range s.submitted)

/-- Of `n` operations each gets an entry: the kernel takes entries whenever `q` of them fill the
queue. -/
def Room (ringSize : Nat) : Nat → Nat → List Nat → Prop
  | _, 0, _ => True
  | q, n + 1, takes =>
    if q < ringSize then Room ringSize (q + 1) n takes
    else
      q - takes.headD 0 < ringSize ∧ Room ringSize (q - takes.headD 0 + 1) n takes.tail

theorem prepareAll_skipped (block i : Nat) (ops : List IoOperation) (takes : List Nat) (r : Ring) :
    (prepareAll ringSize block i ops takes r).2.2 = [] ↔
      Room ringSize r.sq.length ops.length takes := by
  induction ops generalizing i takes r with
  | nil => simp [prepareAll, Room]
  | cons op ops ih =>
    simp only [prepareAll, Room, List.length_cons]
    split
    · rw [ih]
      simp [Ring.add]
    · have hlen : (r.submit (takes.headD 0)).sq.length = r.sq.length - takes.headD 0 := by
        simp [Ring.submit]
      rw [hlen]
      split
      · rename_i hroom
        rw [ih, and_iff_right hroom, ← hlen]
        simp only [Ring.add, List.length_append, List.length_singleton]
      · rename_i hroom
        simp only [reduceCtorEq, false_iff, not_and]
        exact fun h => absurd h hroom

theorem serials_submit (n : Nat) (r : Ring) : (r.submit n).serials.Perm r.serials := by
  have hsq : (r.sq.drop n ++ r.sq.take n).Perm r.sq := by
    refine List.perm_append_comm.trans ?_
    rw [List.take_append_drop]
  refine List.Perm.map _ (List.Perm.append_right _ ?_)
  show (r.sq.drop n ++ (r.inflight ++ r.sq.take n)).Perm (r.sq ++ r.inflight)
  refine (List.perm_append_comm.append_left _).trans ?_
  rw [← List.append_assoc]
  exact hsq.append_right _

theorem serials_add (sqe : Sqe) (r : Ring) :
    (r.add sqe).serials.Perm (sqe.op.serial :: r.serials) := by
  have hsqes : (r.sq ++ [sqe] ++ r.inflight ++ r.cq.map Cqe.sqe).Perm
      (sqe :: (r.sq ++ r.inflight ++ r.cq.map Cqe.sqe)) := by
    rw [List.append_assoc, List.append_assoc, List.append_assoc]
    exact List.perm_middle
  exact hsqes.map fun sqe => sqe.op.serial

theorem serials_prepareAll (ringSize block i : Nat) (ops : List IoOperation) (takes : List Nat)
    (r : Ring) :
    ((prepareAll ringSize block i ops takes r).2.1.serials ++
      (prepareAll ringSize block i ops takes r).2.2.map (·.serial)).Perm
      (ops.map (·.serial) ++ r.serials) := by
  -- an entry that is added holds the operation that the loop is at
  have added : ∀ (op : IoOperation) (ops : List IoOperation) (sqe : Sqe) (r : Ring), sqe.op = op →
      (ops.map (·.serial) ++ (r.add sqe).serials).Perm
        ((op :: ops).map (·.serial) ++ r.serials) := by
    rintro op ops sqe r rfl
    exact ((serials_add sqe r).append_left _).trans List.perm_middle
  induction ops generalizing i takes r with
  | nil => simp [prepareAll]
  | cons op ops ih =>
    simp only [prepareAll]
    split
    · exact (ih ..).trans (added op ops _ r rfl)
    · have hsubmit := (serials_submit (takes.headD 0) r).append_left ((op :: ops).map (·.serial))
      split
      · exact (ih ..).trans ((added op ops _ _ rfl).trans hsubmit)
      · exact List.perm_middle.trans (((ih ..).cons op.serial).trans hsubmit)

theorem Accounted.push (hs : s.Accounted) {op : IoOperation} (hserial : op.serial = s.submitted)
    (hsubmitted : s'.submitted = s.submitted + 1)
    (hops : s'.pendingOps.ops = s.pendingOps.ops ++ [op]) (hring : s'.ring = s.ring)
    (hprocessed : s'.processed = s.processed) (hskipped : s'.skipped = s.skipped) :
    s'.Accounted := by
  unfold Accounted waiting done at hs ⊢
  rw [hsubmitted, hops, hring, hprocessed, hskipped, List.range_succ]
  refine List.Perm.trans ?_ (hs.append_right [s.submitted])
  rw [List.perm_iff_count]
  intro n
  simp only [List.map_append, List.map_cons, List.map_nil, hserial, List.count_append]
  omega

theorem Accounted.submitPending (hs : s.Accounted) (takes : List Nat) :
    (s.submitPending ringSize takes).Accounted := by
  unfold EventLoop.submitPending
  split
  · exact hs
  · have hall := serials_prepareAll ringSize s.pendingOps.block 0 s.pendingOps.ops takes s.ring
    dsimp only
    generalize prepareAll ringSize s.pendingOps.block 0 s.pendingOps.ops takes s.ring = res at hall ⊢
    obtain ⟨takes', r, skipped⟩ := res
    have hsubmit := serials_submit (takes'.headD 0) r
    unfold Accounted waiting done at hs ⊢
    refine List.Perm.trans ?_ hs
    rw [List.perm_iff_count] at hall hsubmit ⊢
    intro n
    have hall := hall n
    have hsubmit := hsubmit n
    simp only [List.map_append, List.map_nil, List.nil_append, List.count_append] at hall hsubmit ⊢
    omega

theorem Accounted.step (hs : s.Accounted) (h : s.step ringSize grow e = some s') : s'.Accounted := by
  cases e with
  | submit call block =>
    have hserial : (call.operation s.submitted).serial = s.submitted := by cases call <;> rfl
    simp only [EventLoop.step] at h
    split at h
    · rw [← Option.some.inj h]
      exact hs.push hserial rfl rfl rfl rfl rfl
    · split at h
      · cases h
      · rw [← Option.some.inj h]
        exact hs.push hserial rfl rfl rfl rfl rfl
  | submitPending takes =>
    rw [← Option.some.inj h]
    exact hs.submitPending takes
  | complete i res =>
    simp only [EventLoop.step] at h
    split at h
    · cases h
    · rename_i sqe hget
      rw [← Option.some.inj h]
      obtain ⟨hlt, rfl⟩ := List.getElem?_eq_some_iff.1 hget
      have hinflight := (List.getElem_cons_eraseIdx_perm hlt).map fun sqe => sqe.op.serial
      unfold Accounted waiting done Ring.serials at hs ⊢
      refine List.Perm.trans ?_ hs
      rw [List.perm_iff_count] at hinflight ⊢
      intro n
      have hinflight := hinflight n
      simp only [List.map_append, List.map_cons, List.map_nil, List.count_append, List.count_cons,
        List.count_nil] at hinflight ⊢
      omega
  | reap =>
    simp only [EventLoop.step] at h
    split at h
    · cases h
    · rename_i cqe cq hcq
      rw [← Option.some.inj h]
      unfold Accounted waiting done Ring.serials at hs ⊢
      refine List.Perm.trans ?_ hs
      rw [List.perm_iff_count]
      intro n
      simp only [hcq, List.map_append, List.map_cons, List.map_nil, List.count_append,
        List.count_cons, List.count_nil]
      omega

theorem accounted_init : Accounted {} := .refl _

theorem Accounted.serial_ne (hs : s.Accounted) {cqe : Cqe} {cq : List Cqe}
    (hcq : s.ring.cq = cqe :: cq) {slot : Slot} {op : IoOperation}
    (hget : s.pendingOps.get? slot = some op) : op.serial ≠ cqe.sqe.op.serial := by
  have hop : op ∈ s.pendingOps.ops := by
    unfold OpVector.get? at hget
    split at hget
    · exact List.mem_of_getElem? hget
    · cases hget
  have hnodup : s.waiting.Nodup := by
    have hall := hs.nodup_iff.2 List.nodup_range
    exact (List.nodup_append.1 (List.nodup_append.1 hall).1).1
  refine (List.nodup_append.1 hnodup).2.2 _ (List.mem_map_of_mem hop) _ ?_
  simp [Ring.serials, hcq]

/-- The condition of a step that does no harm: every operation gets an entry, and a completion that
is processed has no callback and finds an operation without one at its address. -/
def Harmless (ringSize : Nat) (s : EventLoop) : LoopEvent → Prop
  | .submitPending takes => Room ringSize s.ring.sq.length s.pendingOps.ops.length takes
  | .reap => ∀ cqe ∈ s.ring.cq.head?, cqe.sqe.op.callback = false ∧
      ∃ op, s.pendingOps.get? cqe.sqe.data = some op ∧ op.callback = false
  | _ => True

theorem react_eq_expected_iff (hs : s.Accounted) {cqe : Cqe} {cq : List Cqe}
    (hcq : s.ring.cq = cqe :: cq) : react s.pendingOps cqe = cqe.expected ↔
      cqe.sqe.op.callback = false ∧
        ∃ op, s.pendingOps.get? cqe.sqe.data = some op ∧ op.callback = false := by
  unfold react Cqe.expected
  cases hget : s.pendingOps.get? cqe.sqe.data with
  | none => cases cqe.sqe.op.callback <;> simp
  | some op =>
    have hne := hs.serial_ne hcq hget
    cases cqe.sqe.op.callback <;> cases hop : op.callback <;> simp [hop, hne]

theorem noneLost_iff (hs : s.Accounted) :
    (∀ serial < s.submitted, serial ∈ s.waiting ∨ serial ∈ s.done) ↔ s.skipped = [] := by
  have hmem : ∀ serial, serial < s.submitted ↔
      (serial ∈ s.waiting ∨ serial ∈ s.done) ∨ serial ∈ s.skipped.map (·.serial) := by
    intro serial
    rw [← List.mem_range, ← hs.mem_iff, List.mem_append, List.mem_append]
  have hnodup := hs.nodup_iff.2 List.nodup_range
  constructor
  · intro h
    rw [List.eq_nil_iff_forall_not_mem]
    intro op hop
    have hskip : op.serial ∈ s.skipped.map (·.serial) := List.mem_map_of_mem hop
    have hplace := h op.serial ((hmem op.serial).2 (.inr hskip))
    exact (List.nodup_append.1 hnodup).2.2 _ (List.mem_append.2 hplace) _ hskip rfl
  · intro h serial hlt
    simpa [h] using (hmem serial).1 hlt

theorem delivers_iff (hs : s.Accounted) :
    s.Delivers ↔ (∀ p ∈ s.processed, p.2 = p.1.expected) ∧ s.skipped = [] := by
  constructor
  · intro h
    exact ⟨h.own, (noneLost_iff hs).1 h.noneLost⟩
  · rintro ⟨hown, hskip⟩
    refine ⟨hown, ?_, (noneLost_iff hs).2 hskip⟩
    have hdone : s.done.Nodup := by
      have hall := hs.nodup_iff.2 List.nodup_range
      exact (List.nodup_append.1 (List.nodup_append.1 hall).1).2.1
    refine hdone.sublist (filterMap_sublist_map ?_)
    intro p hp serial hcalled
    rw [hown p hp, Cqe.expected] at hcalled
    split at hcalled
    · exact (Option.some.inj hcalled).symm
    · cases hcalled

/-- One step: what has been processed and skipped so far, and the condition of the step. -/
theorem processed_step (hs : s.Accounted) (h : s.step ringSize grow e = some s') :
    ((∀ p ∈ s'.processed, p.2 = p.1.expected) ∧ s'.skipped = []) ↔
      ((∀ p ∈ s.processed, p.2 = p.1.expected) ∧ s.skipped = []) ∧ s.Harmless ringSize e := by
  cases e with
  | submit call block =>
    have hsame : s'.processed = s.processed ∧ s'.skipped = s.skipped := by
      simp only [EventLoop.step] at h
      split at h
      · rw [← Option.some.inj h]
        exact ⟨rfl, rfl⟩
      · split at h
        · cases h
        · rw [← Option.some.inj h]
          exact ⟨rfl, rfl⟩
    rw [hsame.1, hsame.2]
    exact (and_iff_left trivial).symm
  | submitPending takes =>
    rw [← Option.some.inj h]
    show _ ↔ _ ∧ Room ringSize s.ring.sq.length s.pendingOps.ops.length takes
    unfold submitPending
    split
    · rename_i hnil
      rw [hnil]
      exact (and_iff_left trivial).symm
    · rw [← prepareAll_skipped s.pendingOps.block 0, and_assoc]
      exact and_congr_right fun _ => List.append_eq_nil_iff
  | complete i res =>
    simp only [EventLoop.step] at h
    split at h
    · cases h
    · rw [← Option.some.inj h]
      exact (and_iff_left trivial).symm
  | reap =>
    simp only [EventLoop.step] at h
    split at h
    · cases h
    · rename_i cqe cq hcq
      have hreact := react_eq_expected_iff hs hcq
      rw [← Option.some.inj h]
      simp only [Harmless, hcq, List.head?_cons, Option.mem_some_iff, forall_eq', ← hreact,
        List.forall_mem_append, List.forall_mem_singleton]
      tauto

end EventLoop

open EventLoop

/-- Every completion has called the callback of its operation, none twice, and no operation is lost,
exactly if every operation got an entry, and a completion was only processed if its operation has
no callback and another one without callback lived at its address. -/
theorem delivers_iff_harmless {ringSize : Nat} {grow : Nat → Nat} {events : List LoopEvent}
    {s : EventLoop} (hrun : run (EventLoop.step ringSize grow) {} events = some s) :
    s.Delivers ↔ Along (EventLoop.step ringSize grow) (Harmless ringSize) {} events := by
  have hboth : s.Accounted ∧ (((∀ p ∈ s.processed, p.2 = p.1.expected) ∧ s.skipped = []) ↔
      Along (EventLoop.step ringSize grow) (Harmless ringSize) {} events) := by
    refine run_induction (C := fun _ _ => True) (motive := fun es s => s.Accounted ∧
      (((∀ p ∈ s.processed, p.2 = p.1.expected) ∧ s.skipped = []) ↔
        Along (EventLoop.step ringSize grow) (Harmless ringSize) {} es)) ?_ ?_ .unconditional hrun
    · refine ⟨accounted_init, fun _ => Along.nil, fun _ => ⟨?_, rfl⟩⟩
      intro p hp
      cases hp
    · intro es s e s' hes ih _ hstep
      refine ⟨ih.1.step hstep, ?_⟩
      rw [processed_step ih.1 hstep, ih.2, Along.concat_iff]
      refine and_congr_right fun _ => ⟨fun h s₁ hs₁ => ?_, fun h => h s hes⟩
      exact Option.some.inj (hes.symm.trans hs₁) ▸ h
  rw [delivers_iff hboth.1, hboth.2]

section Example

/-- Two cancellations: the second is in the place of the first when that completes. -/
def cancelRun : List LoopEvent :=
  [.submit (.cancel 7) 1, .submitPending [1], .submit (.cancel 8) 1, .complete 0 0, .reap]

theorem delivers_iff_harmless_cancel : ∃ s, run (EventLoop.step 4 (· + 1)) {} cancelRun = some s ∧
    (s.Delivers ↔ Along (EventLoop.step 4 (· + 1)) (Harmless 4) {} cancelRun) :=
  ⟨_, rfl, delivers_iff_harmless rfl⟩

/-- A send completes with 5 after a receive has been submitted: the callback of the receive is
called with 5, and that of the send is not. -/
theorem callback_of_other_operation : ∃ s,
    run (EventLoop.step 4 (· + 1)) {}
      [.submit (.send 3 100 5 true 0) 1, .submitPending [1], .submit (.recv 4 200 64 true 0) 1,
        .complete 0 5, .reap] = some s ∧
    s.processed.map (fun p => (p.1.sqe.op.serial, p.2)) = [(0, .invoked 1 5 0)] ∧
    ¬ s.Delivers := by
  refine ⟨_, rfl, rfl, ?_⟩
  intro h
  have hown := h.own _ (List.mem_singleton_self _)
  exact absurd hown (by decide)

end Example

end GossipRl
