import Mathlib.Logic.Function.Basic
import Mathlib.Data.Nat.Notation

/-!
# Files and power failures

A volume gives every name a content, and says whether a power failure would leave it that way.
Only a flush and a replacement of one name by another make sure of that; until then anything
may be found under the name after the failure. The second half is what a program wants of a file: a
register that changes as a whole or not at all.
-/

namespace Volume

section

variable {P A : Type*}

/-- What stands under a name. -/
structure Entry (A : Type*) where
  content : Option (List A) := none
  settled : Bool := true
  deriving DecidableEq, Repr

abbrev Disk (P A : Type*) := P → Entry A

inductive Op (P A : Type*)
  | create (p : P)
  | append (p : P) (data : List A)
  | flush (p : P)
  /-- `p` takes the place of `q`, whatever stood there, and stays there. -/
  | move (p q : P)
  | delete (p : P)
  deriving DecidableEq, Repr

variable [DecidableEq P]

def Op.apply (d : Disk P A) : Op P A → Disk P A
  | .create p => Function.update d p { content := some [], settled := false }
  | .append p data =>
      Function.update d p { content := (d p).content.map (· ++ data), settled := false }
  | .flush p => Function.update d p { d p with settled := true }
  | .move p q => Function.update (Function.update d q (d p)) p {}
  | .delete p => Function.update d p { settled := false }

def applyAll (ops : List (Op P A)) (d : Disk P A) : Disk P A := ops.foldl Op.apply d

/-- What may be found after a power failure. -/
def Survives (d d' : Disk P A) : Prop :=
  ∀ p, (d' p).settled = true ∧ ((d p).settled = true → d' p = d p)

/-- The failure that leaves everything as it is. -/
def calm (d : Disk P A) : Disk P A := fun p => { d p with settled := true }

omit [DecidableEq P] in
theorem survives_calm (d : Disk P A) : Survives d (calm d) := by
  refine fun p => ⟨rfl, fun hsettled => ?_⟩
  rw [calm, ← hsettled]

theorem applyAll_append (ops ops' : List (Op P A)) (d : Disk P A) :
    applyAll (ops ++ ops') d = applyAll ops' (applyAll ops d) :=
  List.foldl_append

/-- The operations that change nothing but one name. -/
def Op.On (p : P) : Op P A → Prop
  | .create q | .append q _ | .flush q | .delete q => q = p
  | .move _ _ => False

theorem Op.On.apply_ne {p q : P} {op : Op P A} (h : op.On p) (hne : q ≠ p) (d : Disk P A) :
    op.apply d q = d q := by
  cases op <;> cases h <;> exact Function.update_of_ne hne _ _

theorem applyAll_ne {p q : P} {ops : List (Op P A)} (h : ∀ op ∈ ops, op.On p) (hne : q ≠ p)
    (d : Disk P A) : applyAll ops d q = d q := by
  induction ops generalizing d with
  | nil => rfl
  | cons op ops ih =>
      rw [applyAll, List.foldl_cons]
      have ih := ih (fun op' hop' => h op' (List.mem_cons_of_mem op hop')) (op.apply d)
      exact ih.trans ((h op List.mem_cons_self).apply_ne hne d)

/-- The appends to a name put their data one behind the other. -/
theorem applyAll_appends {p : P} {content : List A} (pieces : List (List A)) {d : Disk P A}
    (h : (d p).content = some content) (hsettled : (d p).settled = false) :
    applyAll (pieces.map (Op.append p)) d =
      Function.update d p { content := some (content ++ pieces.flatten), settled := false } := by
  induction pieces generalizing content d with
  | nil =>
      rw [List.flatten_nil, List.append_nil, ← h, ← hsettled]
      exact (Function.update_eq_self p d).symm
  | cons data pieces ih =>
      have hfirst : (Op.append p data).apply d =
          Function.update d p { content := some (content ++ data), settled := false } := by
        rw [Op.apply, h, Option.map_some]
      rw [List.map_cons, applyAll, List.foldl_cons, hfirst]
      have ih := @ih (content ++ data)
        (Function.update d p { content := some (content ++ data), settled := false })
        (by rw [Function.update_self]) (by rw [Function.update_self])
      rw [applyAll] at ih
      rw [ih, Function.update_idem, List.flatten_cons, List.append_assoc]

end

/-! ## Registers -/

section

variable {C : Type*}

/-- What is asked of a register, with the answer; a failure of the power leaves no answer. -/
inductive Request (C : Type*)
  | save (value : C) (ok : Bool)
  | cut (value : C)
  deriving DecidableEq, Repr

inductive Replaces : Option C → Request C → Option C → Prop
  | saved (old : Option C) (value : C) : Replaces old (.save value true) (some value)
  | refused (old : Option C) (value : C) : Replaces old (.save value false) old
  | lost (old : Option C) (value : C) : Replaces old (.cut value) old
  | kept (old : Option C) (value : C) : Replaces old (.cut value) (some value)

/-- The values a register may hold after its requests: the last one that was saved, and those
whose saving was cut short since. -/
def candidates (first : Option C) (requests : List (Request C)) : List (Option C) :=
  requests.foldl (fun held request =>
    match request with
    | .save value true => [some value]
    | .save _ false => held
    | .cut value => held ++ [some value]) [first]

inductive Replaced (first : Option C) : List (Request C) → Option C → Prop
  | nil : Replaced first [] first
  | concat {requests : List (Request C)} {request : Request C} {old new : Option C}
      (h : Replaced first requests old) (hstep : Replaces old request new) :
      Replaced first (requests ++ [request]) new

theorem Replaced.mem_candidates {first : Option C} {requests : List (Request C)} {held : Option C}
    (h : Replaced first requests held) : held ∈ candidates first requests := by
  induction h with
  | nil => exact List.mem_singleton.2 rfl
  | @concat requests request old new _ hstep ih =>
      rw [candidates, List.foldl_append, List.foldl_cons, List.foldl_nil]
      rw [candidates] at ih
      cases hstep with
      | saved value => exact List.mem_singleton.2 rfl
      | refused value => exact ih
      | lost value => exact List.mem_append_left _ ih
      | kept value => exact List.mem_append_right _ (List.mem_singleton.2 rfl)

end

end Volume
