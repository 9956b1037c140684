import Mathlib.Data.List.Induction

/-!
# The life of a session slot

What the session layer is for, without sockets, bit masks or rings: a slot is free, or carries one connection with
at most one read or drain and at most one write to be answered, or waits for the answer to its close.  The type
`Slot` has no value in which a close is pending beside another operation.  A sequence of calls and answers is
legal when `Slot.run` accepts it; in a legal sequence every answer belongs to one earlier call on the same
connection, and a slot is only opened after the previous connection was closed or detached.
-/

namespace Mcon

/-- The two operations that share the reading side of a connection. -/
inductive ReadKind
  | read
  | drain
  deriving DecidableEq, Repr

/-- The operations an application may ask for. -/
inductive SlotOp
  | reading (kind : ReadKind)
  | write
  | close
  deriving DecidableEq, Repr

/-- The sides of a connection that an operation can take; a side takes one operation at a time. -/
inductive Side
  | reading
  | writing
  | closing
  deriving DecidableEq, Repr

def SlotOp.side : SlotOp → Side
  | reading _ => .reading
  | write => .writing
  | close => .closing

/-- The sides that must not be taken when the operation is called. -/
def SlotOp.blockers : SlotOp → List Side
  | reading _ => [.reading, .closing]
  | write => [.writing, .closing]
  | close => [.reading, .writing, .closing]

/-- What an application sees of a slot. -/
inductive SlotEvent
  | opened
  | called (op : SlotOp)
  | answered (op : SlotOp)
  | detached
  deriving DecidableEq, Repr

inductive Slot
  | free
  | busy (reading : Option ReadKind) (writing : Bool)
  | closing
  deriving DecidableEq, Repr

namespace Slot

/-- A new connection. -/
def idle : Slot := .busy none false

def next : Slot → SlotEvent → Option Slot
  | .free, .opened => some .idle
  | .busy none w, .called (.reading kind) => some (.busy (some kind) w)
  | .busy r false, .called .write => some (.busy r true)
  | .busy none false, .called .close => some .closing
  | .busy none false, .detached => some .free
  | .busy (some kind) w, .answered (.reading kind') => if kind = kind' then some (.busy none w) else none
  | .busy r true, .answered .write => some (.busy r false)
  | .closing, .answered .close => some .free
  | _, _ => none

def run : Slot → List SlotEvent → Option Slot
  | x, [] => some x
  | x, e :: es =>
    match x.next e with
    | none => none
    | some y => run y es

/-- The operation `op` waits for its answer. -/
def pending : Slot → SlotOp → Bool
  | .busy r _, .reading kind => r = some kind
  | .busy _ w, .write => w
  | .closing, .close => true
  | _, _ => false

/-- The side is taken by a pending operation. -/
def occupied : Slot → Side → Bool
  | .busy r _, .reading => r.isSome
  | .busy _ w, .writing => w
  | .closing, .closing => true
  | _, _ => false

/-! ### What one event does -/

theorem next_called_of_blockers {x : Slot} {op : SlotOp} (hx : x ≠ .free)
    (hfree : ∀ side ∈ op.blockers, x.occupied side = false) : ∃ y, x.next (.called op) = some y := by
  cases x with
  | free => exact absurd rfl hx
  | busy r w => cases op <;> simp_all [SlotOp.blockers, occupied, next]
  | closing => cases op <;> simp_all [SlotOp.blockers, occupied]

theorem next_called_spec {x y : Slot} {op : SlotOp} (h : x.next (.called op) = some y) :
    y ≠ .free ∧ x.pending op = false ∧
      (∀ op', y.pending op' = (x.pending op' || decide (op' = op))) ∧
      ∀ side, y.occupied side = (x.occupied side || decide (side = op.side)) := by
  rcases x with _ | ⟨r, w⟩ | _
  · simp [next] at h
  · rcases op with kind | _ | _ <;> rcases r with _ | kind' <;> rcases w with _ | _ <;> simp [next] at h <;>
      subst h <;> refine ⟨by simp, by simp [pending], ?_, ?_⟩
    all_goals rintro (_ | _ | _) <;> simp [pending, occupied, SlotOp.side, eq_comm]
  · simp [next] at h

/-- An operation other than a close is answered on the connection it was called on. -/
theorem next_answered_spec {x : Slot} {op : SlotOp} (hp : x.pending op = true) (hclose : op ≠ .close) :
    ∃ y, x.next (.answered op) = some y ∧ x ≠ .free ∧ y ≠ .free ∧
      (∀ op', y.pending op' = (x.pending op' && decide (op' ≠ op))) ∧
      ∀ side, y.occupied side = (x.occupied side && decide (side ≠ op.side)) := by
  rcases x with _ | ⟨r, w⟩ | _
  · cases op <;> simp [pending] at hp
  · rcases op with kind | _ | _ <;> rcases r with _ | kind' <;> rcases w with _ | _ <;> simp [pending] at hp
    all_goals
      try subst hp
      refine ⟨_, by simp [next]; rfl, by simp, by simp, ?_, ?_⟩
      all_goals rintro (_ | _ | _) <;> simp [pending, occupied, SlotOp.side, eq_comm]
  · cases op <;> simp_all [pending]

theorem eq_closing_of_pending {x : Slot} (h : x.pending .close = true) : x = .closing := by
  cases x <;> simp_all [pending]

theorem eq_idle_of_blockers {x : Slot} (hx : x ≠ .free)
    (hfree : ∀ side ∈ SlotOp.close.blockers, x.occupied side = false) : x = .idle := by
  rcases x with _ | ⟨r, w⟩ | _ <;> simp_all [SlotOp.blockers, occupied, idle]

@[simp] theorem run_singleton (x : Slot) (e : SlotEvent) : x.run [e] = x.next e := by
  rw [run]
  cases x.next e with
  | none => rfl
  | some y => rfl

theorem run_append (x : Slot) (es es' : List SlotEvent) : x.run (es ++ es') = (x.run es).bind (run · es') := by
  induction es generalizing x with
  | nil => rfl
  | cons e es ih =>
    rw [List.cons_append, run, run]
    cases x.next e with
    | none => rfl
    | some y => exact ih y

theorem run_cons {x y : Slot} {e : SlotEvent} {es : List SlotEvent} (h : x.run (e :: es) = some y) :
    ∃ z, x.next e = some z ∧ z.run es = some y := by
  rw [run] at h
  cases hn : x.next e with
  | none => rw [hn] at h; cases h
  | some z => rw [hn] at h; exact ⟨z, rfl, h⟩

/-- A legal sequence is legal up to each of its events and from there on. -/
theorem run_split {x y : Slot} {es es' : List SlotEvent} {e : SlotEvent} (h : x.run (es ++ e :: es') = some y) :
    ∃ z z' : Slot, x.run es = some z ∧ z.next e = some z' ∧ z'.run es' = some y := by
  rw [run_append] at h
  cases hz : x.run es with
  | none => rw [hz] at h; cases h
  | some z =>
    rw [hz, Option.bind_some] at h
    obtain ⟨z', hn, hr⟩ := run_cons h
    exact ⟨z, z', rfl, hn, hr⟩

/-! ### Every answer has its call -/

/-- An event that says nothing about the operation `op` and does not change the connection. -/
def Unrelated (op : SlotOp) (e : SlotEvent) : Prop :=
  e ≠ .opened ∧ e ≠ .detached ∧ e ≠ .answered .close ∧ e ≠ .called op ∧ e ≠ .answered op

private theorem pending_of_next {x y : Slot} {e : SlotEvent} {op : SlotOp} (h : x.next e = some y)
    (hp : y.pending op = true) : e = .called op ∨ x.pending op = true ∧ Unrelated op e := by
  unfold next at h
  unfold Unrelated
  split at h <;> (try split at h) <;> simp only [Option.some.injEq, reduceCtorEq] at h <;> subst h <;>
    cases op <;> simp_all [pending, idle]

theorem pending_of_answered {x y : Slot} {op : SlotOp} (h : x.next (.answered op) = some y) :
    x.pending op = true := by
  unfold next at h
  split at h <;> simp_all [pending]

/-- A pending operation was called, and nothing has been seen of it or of another connection since. -/
theorem called_of_pending {es : List SlotEvent} {x : Slot} {op : SlotOp} (hr : run .free es = some x)
    (hp : x.pending op = true) :
    ∃ l₁ l₂, es = l₁ ++ .called op :: l₂ ∧ ∀ e ∈ l₂, Unrelated op e := by
  induction es using List.reverseRecOn generalizing x with
  | nil =>
    rw [run, Option.some.injEq] at hr
    subst hr
    cases op <;> cases hp
  | append_singleton es e ih =>
    obtain ⟨z, z', hz, hn, hnil⟩ := run_split hr
    obtain rfl : z' = x := Option.some.inj hnil
    rcases pending_of_next hn hp with rfl | ⟨hpz, he⟩
    · exact ⟨es, [], rfl, by simp⟩
    · obtain ⟨l₁, l₂, rfl, hl₂⟩ := ih hz hpz
      refine ⟨l₁, l₂ ++ [e], by simp, ?_⟩
      intro e' he'
      rcases List.mem_append.1 he' with he' | he'
      · exact hl₂ e' he'
      · rw [List.mem_singleton] at he'
        exact he' ▸ he

/-- Before every answer of a legal sequence stands its call, with nothing about the same operation and no change
of the connection in between. -/
theorem called_of_answered {es es' : List SlotEvent} {x : Slot} {op : SlotOp}
    (hr : run .free (es ++ .answered op :: es') = some x) :
    ∃ l₁ l₂, es = l₁ ++ .called op :: l₂ ∧ ∀ e ∈ l₂, Unrelated op e := by
  obtain ⟨z, _, hz, hn, -⟩ := run_split hr
  exact called_of_pending hz (pending_of_answered hn)

/-! ### A slot in use is not opened again -/

/-- The events that end a connection. -/
def Release (e : SlotEvent) : Prop := e = .answered .close ∨ e = .detached

instance : DecidablePred Release := fun e => inferInstanceAs (Decidable (e = .answered .close ∨ e = .detached))

/-- The number of connections that ended. -/
def releases (es : List SlotEvent) : Nat := es.countP fun e => decide (Release e)

theorem releases_append (es es' : List SlotEvent) : releases (es ++ es') = releases es + releases es' :=
  List.countP_append

theorem releases_eq_zero_iff {es : List SlotEvent} : releases es = 0 ↔ ∀ e ∈ es, ¬ Release e := by
  simp [releases, List.countP_eq_zero]

private theorem ne_free_of_next {x y : Slot} {e : SlotEvent} (h : x.next e = some y) (hx : x ≠ .free)
    (he : ¬ Release e) : y ≠ .free := by
  unfold next at h
  unfold Release at he
  split at h <;> (try split at h) <;> simp_all <;> subst h <;> simp

theorem ne_free_of_run {es : List SlotEvent} {x y : Slot} (h : x.run es = some y) (hx : x ≠ .free)
    (he : ∀ e ∈ es, ¬ Release e) : y ≠ .free := by
  induction es generalizing x with
  | nil => rw [run, Option.some.injEq] at h; exact h ▸ hx
  | cons e es ih =>
    obtain ⟨z, hn, hr⟩ := run_cons h
    exact ih hr (ne_free_of_next hn hx (he e (by simp))) fun e' he' => he e' (by simp [he'])

theorem free_of_next_release {x y : Slot} {e : SlotEvent} (h : x.next e = some y) (he : Release e) : y = .free := by
  unfold next at h
  unfold Release at he
  split at h <;> (try split at h) <;> simp_all

theorem free_of_next_opened {x y : Slot} (h : x.next .opened = some y) : x = .free ∧ y = .idle := by
  unfold next at h
  split at h <;> simp_all

/-- A slot that comes into use is opened. -/
theorem opened_of_run {es : List SlotEvent} {y : Slot} (hr : run .free es = some y) (hy : y ≠ .free) :
    .opened ∈ es := by
  cases es with
  | nil =>
    rw [run, Option.some.injEq] at hr
    exact absurd hr.symm hy
  | cons e es =>
    rw [run] at hr
    cases e with
    | opened => exact List.mem_cons_self
    | called op => cases op <;> cases hr
    | answered op => cases op <;> cases hr
    | detached => cases hr

/-- What a call can report of a slot. -/
def Reported (e : SlotEvent) : Prop := e = .opened ∨ ∃ op, e = .answered op

/-- Without calls there is nothing to see of a connection without operations. -/
theorem eq_nil_of_run_idle {es : List SlotEvent} {y : Slot} (hr : idle.run es = some y) (hes : ∀ e ∈ es, Reported e) :
    es = [] := by
  cases es with
  | nil => rfl
  | cons e es =>
    obtain ⟨z, hn, -⟩ := run_cons hr
    rcases hes e List.mem_cons_self with rfl | ⟨op, rfl⟩
    · cases hn
    · rcases op with _ | _ | _ <;> cases hn

/-- Between two openings of a slot lies the end of the first connection. -/
theorem release_between {es es' es'' : List SlotEvent} {x : Slot}
    (hr : run .free (es ++ .opened :: (es' ++ .opened :: es'')) = some x) : ∃ e ∈ es', Release e := by
  by_contra hnone
  have hrel : ∀ e ∈ es', ¬ Release e := fun e he hre => hnone ⟨e, he, hre⟩
  obtain ⟨_, z, -, hn, hr⟩ := run_split hr
  obtain ⟨w, _, hw, hn', -⟩ := run_split hr
  have hz := (free_of_next_opened hn).2
  exact ne_free_of_run hw (by rw [hz]; simp [idle]) hrel (free_of_next_opened hn').1

/-- A slot in use is not opened again before its connection ends. -/
theorem not_mem_opened {x y : Slot} {es : List SlotEvent} (hr : x.run es = some y) (hx : x ≠ .free)
    (hreleases : releases es = 0) : .opened ∉ es := by
  intro hmem
  obtain ⟨before, after, rfl⟩ := List.append_of_mem hmem
  rw [releases_eq_zero_iff] at hreleases
  obtain ⟨z, _, hz, hn, -⟩ := run_split hr
  exact ne_free_of_run hz hx (fun e he => hreleases e (List.mem_append_left _ he)) (free_of_next_opened hn).1

end Slot

end Mcon
