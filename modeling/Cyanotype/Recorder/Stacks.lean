import Cyanotype.Recorder.Transparency

/-!
# Stacked recorders

A router that is recorded may be part of a router that is recorded again, and then its
bodies pass through one tee after the other. Whatever looks like a body behaves as the
body does, so that no tee of a stack notices the others.
-/

namespace Cyanotype

/-! ## Views of a body -/

namespace Body

variable {β β' β'' ε : Type*}

/-- Seen through `view`, every state of one body answers as a state of another. -/
structure Views (outer : Body β' ε) (body : Body β ε) (view : β' → β) : Prop where
  result : ∀ b, (outer.pollFrame b).1 = (body.pollFrame (view b)).1
  next : ∀ b, view (outer.pollFrame b).2 = (body.pollFrame (view b)).2
  isEndStream : ∀ b, outer.isEndStream b = body.isEndStream (view b)
  sizeHint : ∀ b, outer.sizeHint b = body.sizeHint (view b)

namespace Views

variable {outer : Body β' ε} {body : Body β ε} {view : β' → β}

theorem refl (body : Body β ε) : body.Views body id :=
  ⟨fun _ => rfl, fun _ => rfl, fun _ => rfl, fun _ => rfl⟩

theorem trans {outermost : Body β'' ε} {view' : β'' → β'} (h' : outermost.Views outer view')
    (h : outer.Views body view) : outermost.Views body (view ∘ view') where
  result := fun b => (h'.result b).trans (h.result _)
  next := fun b => (congrArg view (h'.next b)).trans (h.next _)
  isEndStream := fun b => (h'.isEndStream b).trans (h.isEndStream _)
  sizeHint := fun b => (h'.sizeHint b).trans (h.sizeHint _)

/-- It goes on to do so, poll after poll. -/
theorem after (h : outer.Views body view) (n : Nat) (b : β') :
    view (outer.after n b) = body.after n (view b) := by
  induction n generalizing b with
  | zero => rfl
  | succ n ih => rw [Body.after, Body.after, ih, h.next]

/-- A result finishes the one body when it finishes the other. -/
theorem finishes_iff (h : outer.Views body view) (result : PollFrame ε) (b : β') :
    outer.Finishes result b ↔ body.Finishes result (view b) := by
  cases result with
  | frame f => exact iff_of_eq (congrArg (· = true) (h.isEndStream b))
  | _ => rfl

/-- The first finishing poll is the same, with the same data up to it. -/
theorem firstFinish (h : outer.Views body view) (n : Nat) (b : β') (data : List UInt8) :
    outer.firstFinish n b data = body.firstFinish n (view b) data := by
  induction n generalizing b data with
  | zero => rfl
  | succ n ih =>
    rw [Body.firstFinish, Body.firstFinish]
    simp only [h.result, h.finishes_iff, h.next, ih]

end Views

end Body

namespace TeeBody

variable {β β' ε σ : Type*}

/-- A tee is a view of its inner body. -/
theorem views_inner (body : Body β ε) :
    (asBody (σ := σ) body).Views body fun b => b.1.inner where
  result := fun _ => rfl
  next := fun b => onResult_inner body _ _ b.2
  isEndStream := fun _ => rfl
  sizeHint := fun _ => rfl

/-- What a tee calls back with depends on what can be seen of its inner body only. -/
theorem polled_calls_of_views {outer : Body β' ε} {body : Body β ε} {view : β' → β}
    (h : outer.Views body view) (cap : Nat) (b : β') (n : Nat) :
    (polled outer cap b n).2 = (polled body cap (view b) n).2 := by
  rw [polled_calls, polled_calls, h.firstFinish]

/-! ## Stacks -/

/-- The states of a stack of tees with some caps, the outermost first; each tee acts on the
record of its calls. -/
def Stack (β : Type) : List Nat → Type
  | [] => β
  | _ :: caps => TeeBody (Stack β caps) (List CapturedBody) × List CapturedBody

variable {β ε : Type}

/-- The stack as a body. -/
def stackBody (body : Body β ε) : (caps : List Nat) → Body (Stack β caps) ε
  | [] => body
  | _ :: caps => asBody (stackBody body caps)

/-- A stack that has not been polled. -/
def newStack (b : β) : (caps : List Nat) → Stack β caps
  | [] => b
  | cap :: caps => (new (newStack b caps) cap recordCall, [])

/-- What each tee of a stack has been called back with. -/
def stackCalls : (caps : List Nat) → Stack β caps → List (List CapturedBody)
  | [], _ => []
  | _ :: caps, (tee, calls) => calls :: stackCalls caps tee.inner

/-- The body at the bottom of a stack. -/
def bottom : (caps : List Nat) → Stack β caps → β
  | [], b => b
  | _ :: caps, (tee, _) => bottom caps tee.inner

/-- Below the tees of a new stack is the body. -/
theorem bottom_newStack (b : β) (caps : List Nat) : bottom caps (newStack b caps) = b := by
  induction caps with
  | nil => rfl
  | cons cap caps ih => exact ih

/-- A stack is a view of the body at its bottom. -/
theorem views_bottom (body : Body β ε) (caps : List Nat) :
    (stackBody body caps).Views body (bottom caps) := by
  induction caps with
  | nil => exact .refl body
  | cons cap caps ih => exact (views_inner (stackBody body caps)).trans ih

/-- Each tee of a stack calls back with what it would capture if it were alone. -/
theorem stackCalls_after (body : Body β ε) (caps : List Nat) (b : β) (n : Nat) :
    stackCalls caps ((stackBody body caps).after n (newStack b caps)) =
      caps.map fun cap => (polled body cap b n).2 := by
  induction caps with
  | nil => rfl
  | cons cap caps ih =>
    have hinner : (polled (stackBody body caps) cap (newStack b caps) n).1.inner =
        (stackBody body caps).after n (newStack b caps) := after_inner (stackBody body caps) n _ _
    have hcalls := polled_calls_of_views (views_bottom body caps) cap (newStack b caps) n
    rw [bottom_newStack] at hcalls
    rw [List.map_cons, ← ih, ← hcalls, ← hinner]
    rfl

/-- However many tees are stacked on a body, whoever polls the outermost sees the body, and
each tee has called back as if it were alone: if there was a finishing poll, once, with the
data up to the first one, cut at its own cap. -/
theorem stack_transparent (body : Body β ε) (caps : List Nat) (b : β) (n : Nat) :
    let stack := (stackBody body caps).after n (newStack b caps)
    ((stackBody body caps).pollFrame stack).1 = (body.pollFrame (body.after n b)).1 ∧
      (stackBody body caps).isEndStream stack = body.isEndStream (body.after n b) ∧
      (stackBody body caps).sizeHint stack = body.sizeHint (body.after n b) ∧
      stackCalls caps stack =
        caps.map fun cap => ((body.firstFinish n b []).map (captureOf cap)).toList := by
  have hview := views_bottom body caps
  have hbottom : bottom caps ((stackBody body caps).after n (newStack b caps)) =
      body.after n b := by rw [hview.after, bottom_newStack]
  refine ⟨?_, ?_, ?_, ?_⟩
  · rw [hview.result, hbottom]
  · rw [hview.isEndStream, hbottom]
  · rw [hview.sizeHint, hbottom]
  · rw [stackCalls_after]
    exact List.map_congr_left fun cap _ => polled_calls body cap b n

end TeeBody

end Cyanotype
