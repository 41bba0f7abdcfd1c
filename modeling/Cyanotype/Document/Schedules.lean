import Cyanotype.Document.Order
import Cyanotype.Recorder.Isolation
import Cyanotype.Recorder.Tally
import Mathlib.Data.List.Pairwise

/-!
# The schedule does not matter

Two test runs that do the same work, on whatever schedule of their threads, leave the
same exchange behind every handle and the same warnings, up to the order of the store
and of the list of warnings. The documents of what they recorded agree.
-/

namespace Cyanotype

open SharedExchange (new access)

variable {H : Type*} [DecidableEq H]

/-- Two runs that do the same work. They push the same exchanges in whatever order, and
each exchange sees the same accesses; only those of its request's tee may come at other
moments among the others. -/
structure SameWork (actions actions' : List (Action H)) : Prop where
  pushes : (actions.filter fun a => a.pushed.isSome).Perm
    (actions'.filter fun a => a.pushed.isSome)
  requests : ∀ h, (accessesOf h actions).filter Access.isRequest =
    (accessesOf h actions').filter Access.isRequest
  others : ∀ h, ((accessesOf h actions).filter fun a => !a.isRequest) =
    (accessesOf h actions').filter fun a => !a.isRequest

variable {env : Externals} {redactions : Redactions} {actions actions' : List (Action H)}

omit [DecidableEq H] in
/-- Only pushes tell which handles are pushed. -/
theorem filterMap_pushed_filter (actions : List (Action H)) :
    (actions.filter fun a => a.pushed.isSome).filterMap Action.pushed =
      actions.filterMap Action.pushed := by
  rw [List.filterMap_filter]
  refine List.filterMap_congr fun a _ => ?_
  cases a.pushed <;> rfl

omit [DecidableEq H] in
/-- A handle is pushed by one step only. -/
theorem eq_of_pushed_eq (honce : (actions.filterMap Action.pushed).Nodup) {a b : Action H}
    (ha : a ∈ actions) (hb : b ∈ actions) {h : H} (hah : a.pushed = some h)
    (hbh : b.pushed = some h) : a = b := by
  have hpairwise := List.pairwise_filterMap.mp honce
  by_contra hab
  have hsymm : Std.Symm fun a b : Action H =>
      ∀ i, a.pushed = some i → ∀ j, b.pushed = some j → i ≠ j :=
    ⟨fun a b hne i hi j hj hij => hne j hj i hi hij.symm⟩
  exact hpairwise.forall ha hb hab h hah h hbh rfl

namespace SameWork

theorem symm (h : SameWork actions actions') : SameWork actions' actions :=
  ⟨h.pushes.symm, fun i => (h.requests i).symm, fun i => (h.others i).symm⟩

/-- Both runs push the same exchanges. -/
theorem mem_push_iff (h : SameWork actions actions') {i : H} {method : Method} {route : String}
    {security : Option SecurityScheme} :
    .push i method route security ∈ actions ↔ .push i method route security ∈ actions' := by
  have hmem := h.pushes.mem_iff (a := .push i method route security)
  simpa [Action.pushed] using hmem

end SameWork

namespace Recorder

variable {s s' : Recorder H}

/-- The store lists the same handles. -/
theorem exchanges_perm_of_sameWork (hwork : SameWork actions actions')
    (h : Tracked env redactions actions s) (h' : Tracked env redactions actions' s') :
    s.exchanges.Perm s'.exchanges := by
  rw [h.order, h'.order, ← filterMap_pushed_filter, ← filterMap_pushed_filter actions']
  exact hwork.pushes.filterMap _

/-- The same is behind every handle. -/
theorem heap_eq_of_sameWork (hwork : SameWork actions actions')
    (h : Tracked env redactions actions s) (h' : Tracked env redactions actions' s') :
    s.heap = s'.heap := by
  have hexchanges := exchanges_perm_of_sameWork hwork h h'
  funext i
  cases hi : s.heap i with
  | none =>
    by_contra hne
    exact (h.stored i).mp (hexchanges.mem_iff.mpr ((h'.stored i).mpr (Ne.symm hne))) hi
  | some shared =>
    have hmem : i ∈ s'.exchanges := hexchanges.mem_iff.mp ((h.stored i).mpr (by simp [hi]))
    obtain ⟨shared', hi'⟩ := Option.ne_none_iff_exists'.mp ((h'.stored i).mp hmem)
    obtain ⟨method, route, security, hpush, halone⟩ := h.alone i shared hi
    obtain ⟨method', route', security', hpush', halone'⟩ := h'.alone i shared' hi'
    have hsame := eq_of_pushed_eq (h'.order ▸ h'.once) (hwork.mem_push_iff.mp hpush) hpush'
      rfl rfl
    obtain ⟨-, rfl, rfl, rfl⟩ := Action.push.inj hsame
    rw [run_eq_of_shuffle SharedExchange.access_comm (hwork.requests i) (hwork.others i),
      halone'] at halone
    rw [hi', halone]

/-- Whatever the schedule, the same work leaves the same exchange behind every handle.
The store lists the same exchanges and the warnings are the same, each in some order. The
documents built from what was recorded agree when declarations are consistent: they
differ at most in the order of `required` and the content of `examples` of inferred
schemas. -/
theorem schedule_irrelevant (env : Externals) (redactions : Redactions)
    (hrun : run (step env) (init redactions) actions = some s)
    (hrun' : run (step env) (init redactions) actions' = some s')
    (hfixed : ∀ a ∈ actions, a.isConfigure = false)
    (hfixed' : ∀ a ∈ actions', a.isConfigure = false) (hwork : SameWork actions actions') :
    s.heap = s'.heap ∧ s.exchanges.Perm s'.exchanges ∧ s.recorded.Perm s'.recorded ∧
    s.warnings.Perm s'.warnings ∧
    (ConsistentDeclarations s.recorded → ∀ warnings,
      DocumentAgrees (DeclaredAt s.recorded) (buildDocument s.recorded warnings).1
        (buildDocument s'.recorded warnings).1) := by
  have htracked := tracked_of_run hrun hfixed
  have htracked' := tracked_of_run hrun' hfixed'
  have hexchanges := exchanges_perm_of_sameWork hwork htracked htracked'
  have hheap := heap_eq_of_sameWork hwork htracked htracked'
  have hat : s.exchangeAt = s'.exchangeAt := by
    funext i
    rw [exchangeAt, exchangeAt, hheap]
  have hraised : s.raisedAt env = s'.raisedAt env := by
    funext i
    rw [raisedAt, raisedAt, hheap]
  have hrecorded : s.recorded.Perm s'.recorded := by
    rw [recorded, recorded, hat]
    exact hexchanges.filterMap _
  refine ⟨hheap, hexchanges, hrecorded, ?_, ?_⟩
  · have htally := (tallied_of_run hrun).warnings
    rw [hraised] at htally
    exact htally.trans ((hexchanges.flatMap_right _).trans (tallied_of_run hrun').warnings.symm)
  · exact fun hconsistent warnings => (buildDocument_perm hrecorded hconsistent warnings).1

/-- The work of the interleaved exchanges, one exchange after the other and without a
snapshot; the request of the first is drained early. -/
def sequential : List (Action Nat) :=
  [.push 1 .post "/users" none, .access 1 (.setStatus 201), .push 0 .get "/users" none,
    .access 0 (.side .request (.finish none [] ⟨[], false⟩)), .access 0 (.side .request .store),
    .access 0 (.setStatus 200),
    .access 0 (.side .response (.finish none [] ⟨[0x31], false⟩)),
    .access 0 (.side .response .store)]

private theorem interleaving_sameWork : SameWork interleaving sequential where
  pushes := .swap ..
  requests := by
    rintro (_ | _ | _) <;> rfl
  others := by
    rintro (_ | _ | _) <;> rfl

/-- The interleaved and the sequential schedule have the same outcome. -/
theorem schedule_irrelevant_example : ∃ s s' : Recorder Nat,
    run (step parseDigits) (init .new) interleaving = some s ∧
    run (step parseDigits) (init .new) sequential = some s' ∧
    s.exchanges = [0, 1] ∧ s'.exchanges = [1, 0] ∧
    s.heap = s'.heap ∧ ∀ warnings, DocumentAgrees (DeclaredAt s.recorded)
      (buildDocument s.recorded warnings).1 (buildDocument s'.recorded warnings).1 := by
  have hlisted : (run (step parseDigits) (init .new) interleaving).map
      (fun s => (s.exchanges, s.recorded.map (·.declaredResponseSchema.isNone))) =
        some ([0, 1], [true, true]) := rfl
  have hlisted' : (run (step parseDigits) (init .new) sequential).map (·.exchanges) =
      some [1, 0] := rfl
  obtain ⟨s, hs, hlisted⟩ := Option.map_eq_some_iff.mp hlisted
  obtain ⟨hexchanges, hnone⟩ := Prod.mk.inj hlisted
  obtain ⟨s', hs', hexchanges'⟩ := Option.map_eq_some_iff.mp hlisted'
  obtain ⟨hheap, -, -, -, hdocument⟩ := schedule_irrelevant parseDigits .new hs hs' (by decide)
    (by decide) interleaving_sameWork
  refine ⟨s, s', hs, hs', hexchanges, hexchanges', hheap, hdocument (.of_undeclared ?_)⟩
  intro exchange hexchange
  have hmem := List.mem_map_of_mem (f := (·.declaredResponseSchema.isNone)) hexchange
  rw [hnone] at hmem
  simpa using hmem

end Recorder

end Cyanotype
