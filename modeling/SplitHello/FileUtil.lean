import SplitHello.Library.Volume
import SplitHello.Library.ByteString

/-!
# Files that change as a whole

A new content is written to a second file next to the old one, which then takes its place. What
the system makes of each call is a parameter: how many bytes a write takes, and which calls
fail. The conversion of a path to the system's encoding is a parameter as well.

The length of a content is cut to 32 bits, so one of four gigabytes or more is stored in part;
and a failed flush is not noticed. Apart from these two, a reader finds the old content or the
new one, also when the power fails on the way.
-/

namespace SplitHello

namespace FileUtil

open ByteString Volume

abbrev WideString := List UInt16

abbrev WideDisk := Disk WideString UInt8

/-- `L".tmp"` -/
def tempSuffix : WideString := [46, 116, 109, 112]

/-- What the system makes of the calls of one `writeAtomic`. -/
structure Calls where
  created : Bool := true
  /-- The bytes that the nth write takes, nothing where it fails. -/
  writes : ℕ → Option ℕ := fun _ => some (2 ^ 32)
  flushed : Bool := true
  moved : Bool := true
  deleted : Bool := true

/-- The writes, from the nth one on. Each takes a byte at least, so there are no more of them
than bytes. -/
def writeLoop (writes : ℕ → Option ℕ) : ℕ → ℕ → Bytes → List Bytes × Bool
  | _, _, [] => ([], true)
  | 0, _, _ :: _ => ([], false)
  | rounds + 1, n, c :: rest =>
      let left := c :: rest
      match writes n with
      | none => ([], false)
      | some written =>
          let written := min written left.length
          if written = 0 then ([], false)
          else
            let (pieces, ok) := writeLoop writes rounds (n + 1) (left.drop written)
            (left.take written :: pieces, ok)

/-- What `writeAtomic` stores of a content. -/
def stored (content : Bytes) : Bytes := content.take (content.length % 2 ^ 32)

section

variable (widen : Bytes → WideString)

/-- The operations on the volume, and the result. -/
def writeAtomic (calls : Calls) (path content : Bytes) : List (Op WideString UInt8) × Bool :=
  let target := widen path
  if target = [] then ([], false)
  else
    let tempPath := target ++ tempSuffix
    if !calls.created then ([], false)
    else
      let left := content.length % 2 ^ 32
      let (pieces, ok) := writeLoop calls.writes left 0 (content.take left)
      let created := .create tempPath :: pieces.map (Op.append tempPath)
      let cleared := if calls.deleted then [.delete tempPath] else []
      if !ok then (created ++ cleared, false)
      else
        let flushed := created ++ if calls.flushed then [.flush tempPath] else []
        if !calls.moved then (flushed ++ cleared, false)
        else (flushed ++ [.move tempPath target], true)

/-- What the system makes of the calls of one `readAll`: the bytes that the nth read gives of
those that are left. -/
structure ReadCalls where
  opened : Bool := true
  reads : ℕ → Option ℕ := fun _ => some 4096

/-- The reads from the nth one on; a read gives nothing only at the end. -/
def readLoop (reads : ℕ → Option ℕ) : ℕ → ℕ → Bytes → Bytes → Bytes × Bool
  | 0, n, _, out => (out, (reads n).isSome)
  | rounds + 1, n, left, out =>
      match reads n with
      | none => (out, false)
      | some read =>
          let read := min (max 1 (min read 4096)) left.length
          if read = 0 then (out, true)
          else readLoop reads rounds (n + 1) (left.drop read) (out ++ left.take read)

/-- The result and what `out` holds behind the call. -/
def readAll (calls : ReadCalls) (disk : WideDisk) (path out : Bytes) : Bool × Bytes :=
  let source := widen path
  if source = [] then (false, out)
  else
    match (disk source).content with
    | none => (false, out)
    | some content =>
        if !calls.opened then (false, out)
        else
          let (read, complete) := readLoop calls.reads content.length 0 content []
          (complete, if complete then read else [])

/-- `DeleteFileW` fails for a file that is not there, which is just as well. -/
def remove (deleted : Bool) (disk : WideDisk) (path : Bytes) : List (Op WideString UInt8) × Bool :=
  if widen path = [] then ([], false)
  else if (disk (widen path)).content = none then ([], true)
  else if deleted then ([.delete (widen path)], true)
  else ([], false)

/-! ## One call -/

theorem writeLoop_flatten {writes : ℕ → Option ℕ} {rounds n : ℕ} {left : Bytes}
    {pieces : List Bytes} (h : writeLoop writes rounds n left = (pieces, true)) :
    pieces.flatten = left := by
  induction rounds generalizing n left pieces with
  | zero =>
      cases left with
      | nil =>
          cases h
          rfl
      | cons c left => cases h
  | succ rounds ih =>
      cases left with
      | nil =>
          cases h
          rfl
      | cons c left =>
          rw [writeLoop] at h
          dsimp only at h
          split at h
          · cases h
          · rename_i written _
            split at h
            · cases h
            · cases hrest : writeLoop writes rounds (n + 1)
                ((c :: left).drop (min written (c :: left).length)) with
              | mk rest ok =>
                  rw [hrest] at h
                  obtain ⟨rfl, rfl⟩ := Prod.mk.inj h
                  rw [List.flatten_cons, ih hrest, List.take_append_drop]

/-- Every read that ends well has read everything. -/
theorem readLoop_complete {reads : ℕ → Option ℕ} {rounds n : ℕ} {left out read : Bytes}
    (hrounds : left.length ≤ rounds) (h : readLoop reads rounds n left out = (read, true)) :
    read = out ++ left := by
  induction rounds generalizing n left out with
  | zero =>
      rw [List.length_eq_zero_iff.1 (Nat.le_zero.1 hrounds), List.append_nil]
      exact (Prod.mk.inj h).1.symm
  | succ rounds ih =>
      rw [readLoop] at h
      split at h
      · cases h
      · rename_i count _
        dsimp only at h
        split at h
        · rename_i hzero
          have hempty : left = [] := List.length_eq_zero_iff.1 (by omega)
          rw [hempty, List.append_nil]
          exact (Prod.mk.inj h).1.symm
        · have hrest := ih (by rw [List.length_drop]; omega) h
          rw [hrest, List.append_assoc, List.take_append_drop]

variable {widen : Bytes → WideString}

/-- A file is read as a whole or not at all. -/
theorem readAll_eq_true {calls : ReadCalls} {disk : WideDisk} {path out read : Bytes}
    (h : readAll widen calls disk path out = (true, read)) :
    (disk (widen path)).content = some read := by
  rw [readAll] at h
  dsimp only at h
  split at h
  · cases h
  · split at h
    · cases h
    · rename_i content hcontent
      split at h
      · cases h
      · cases hloop : readLoop calls.reads content.length 0 content [] with
        | mk found complete =>
            rw [hloop] at h
            obtain ⟨rfl, rfl⟩ := Prod.mk.inj h
            rw [hcontent, if_pos rfl, readLoop_complete (Nat.le_refl _) hloop, List.nil_append]

theorem target_ne_temp (target : WideString) : target ≠ target ++ tempSuffix := by
  intro h
  have := congrArg List.length h
  simp [tempSuffix] at this

/-- The shapes of a call: only the second file is touched, or it takes the place of the first one
in the end. -/
inductive Written (widen : Bytes → WideString) (calls : Calls) (path content : Bytes) :
    List (Op WideString UInt8) × Bool → Prop
  | refused (ops : List (Op WideString UInt8))
      (hops : ∀ op ∈ ops, op.On (widen path ++ tempSuffix)) :
      Written widen calls path content (ops, false)
  | replaced (pieces : List Bytes) (hpieces : pieces.flatten = stored content)
      (htarget : widen path ≠ []) : Written widen calls path content
        ((.create (widen path ++ tempSuffix) ::
          pieces.map (Op.append (widen path ++ tempSuffix)) ++
            if calls.flushed then [.flush (widen path ++ tempSuffix)] else []) ++
          [.move (widen path ++ tempSuffix) (widen path)], true)

theorem writeAtomic_written (widen : Bytes → WideString) (calls : Calls) (path content : Bytes) :
    Written widen calls path content (writeAtomic widen calls path content) := by
  have hcreated (pieces : List Bytes) : ∀ op ∈ (Op.create (widen path ++ tempSuffix) ::
      pieces.map (Op.append (widen path ++ tempSuffix)) : List (Op WideString UInt8)),
      op.On (widen path ++ tempSuffix) := by
    intro op hop
    rcases List.mem_cons.1 hop with rfl | hop
    · rfl
    · obtain ⟨data, -, rfl⟩ := List.mem_map.1 hop
      rfl
  have hcleared : ∀ op ∈ (if calls.deleted then [Op.delete (widen path ++ tempSuffix)] else [] :
      List (Op WideString UInt8)), op.On (widen path ++ tempSuffix) := by
    intro op hop
    split at hop
    · rw [List.mem_singleton.1 hop]
      rfl
    · cases hop
  have hflushed : ∀ op ∈ (if calls.flushed then [Op.flush (widen path ++ tempSuffix)] else [] :
      List (Op WideString UInt8)), op.On (widen path ++ tempSuffix) := by
    intro op hop
    split at hop
    · rw [List.mem_singleton.1 hop]
      rfl
    · cases hop
  rw [writeAtomic]
  dsimp only
  split
  · exact .refused [] (by simp)
  · rename_i htarget
    split
    · exact .refused [] (by simp)
    · cases hloop : writeLoop calls.writes (content.length % 2 ^ 32) 0
        (content.take (content.length % 2 ^ 32)) with
      | mk pieces ok =>
          dsimp only
          cases ok with
          | false =>
              refine .refused _ fun op hop => ?_
              rcases List.mem_append.1 hop with hop | hop
              · exact hcreated pieces op hop
              · exact hcleared op hop
          | true =>
              rw [if_neg (by simp)]
              split
              · refine .refused _ fun op hop => ?_
                rcases List.mem_append.1 hop with hop | hop
                · rcases List.mem_append.1 hop with hop | hop
                  · exact hcreated pieces op hop
                  · exact hflushed op hop
                · exact hcleared op hop
              · exact .replaced pieces (writeLoop_flatten hloop) htarget

/-- The second file before it takes the place of the first one. -/
theorem applyAll_temp (calls : Calls) {pieces : List Bytes} {content : Bytes}
    (hpieces : pieces.flatten = stored content) (temp : WideString) (disk : WideDisk) :
    applyAll (.create temp :: pieces.map (Op.append temp) ++
        if calls.flushed then [.flush temp] else []) disk =
      Function.update disk temp { content := some (stored content), settled := calls.flushed } := by
  have hempty : ((Op.create temp).apply disk temp).content = some [] := by
    rw [Op.apply, Function.update_self]
  have happends := applyAll_appends pieces hempty (by rw [Op.apply, Function.update_self])
  have hcreated : applyAll (.create temp :: pieces.map (Op.append temp)) disk =
      applyAll (pieces.map (Op.append temp)) ((Op.create temp).apply disk) := rfl
  rw [applyAll_append, hcreated, happends, List.nil_append, hpieces, Op.apply,
    Function.update_idem]
  cases calls.flushed with
  | true =>
      rw [if_pos rfl, applyAll, List.foldl_cons, List.foldl_nil, Op.apply, Function.update_self,
        Function.update_idem]
  | false => rfl

/-- What a call has done to the files behind each of its operations. -/
theorem writeAtomic_take (widen : Bytes → WideString) (calls : Calls) (path content : Bytes)
    (k : ℕ) (disk : WideDisk) {name : WideString} (hname : name ≠ widen path ++ tempSuffix) :
    applyAll ((writeAtomic widen calls path content).1.take k) disk name = disk name ∨
      (writeAtomic widen calls path content).2 = true ∧ name = widen path ∧
        applyAll ((writeAtomic widen calls path content).1.take k) disk name =
          { content := some (stored content), settled := calls.flushed } := by
  have hwritten := writeAtomic_written widen calls path content
  revert hwritten
  generalize writeAtomic widen calls path content = result
  intro hwritten
  cases hwritten with
  | refused ops hops =>
      exact Or.inl (applyAll_ne (fun op hop => hops op (List.mem_of_mem_take hop)) hname disk)
  | replaced pieces hpieces htarget =>
      set before := (Op.create (widen path ++ tempSuffix) ::
        pieces.map (Op.append (widen path ++ tempSuffix)) ++
          if calls.flushed then [.flush (widen path ++ tempSuffix)] else []) with hbefore
      have hon : ∀ op ∈ before, op.On (widen path ++ tempSuffix) := by
        intro op hop
        rcases List.mem_append.1 hop with hop | hop
        · rcases List.mem_cons.1 hop with rfl | hop
          · rfl
          · obtain ⟨data, -, rfl⟩ := List.mem_map.1 hop
            rfl
        · split at hop
          · rw [List.mem_singleton.1 hop]
            rfl
          · cases hop
      dsimp only
      by_cases hk : k ≤ before.length
      · rw [List.take_append_of_le_length hk]
        exact Or.inl (applyAll_ne (fun op hop => hon op (List.mem_of_mem_take hop)) hname disk)
      · -- the last operation puts the second file in the place of the first one
        rw [List.take_of_length_le (by rw [List.length_append, List.length_singleton]; omega),
          applyAll_append, hbefore, applyAll_temp calls hpieces, applyAll, List.foldl_cons,
          List.foldl_nil, Op.apply, Function.update_of_ne hname, Function.update_self]
        by_cases heq : name = widen path
        · subst heq
          rw [Function.update_self]
          exact Or.inr ⟨rfl, rfl, rfl⟩
        · rw [Function.update_of_ne heq, Function.update_of_ne hname]
          exact Or.inl rfl

/-- What a call that comes back has done. -/
theorem writeAtomic_target (widen : Bytes → WideString) (calls : Calls) (path content : Bytes)
    (disk : WideDisk) :
    applyAll (writeAtomic widen calls path content).1 disk (widen path) =
      if (writeAtomic widen calls path content).2 then
        { content := some (stored content), settled := calls.flushed }
      else disk (widen path) := by
  have hwritten := writeAtomic_written widen calls path content
  revert hwritten
  generalize writeAtomic widen calls path content = result
  intro hwritten
  cases hwritten with
  | refused ops hops => exact applyAll_ne hops (target_ne_temp _) disk
  | replaced pieces hpieces htarget =>
      dsimp only
      rw [if_pos rfl, applyAll_append, applyAll_temp calls hpieces, applyAll, List.foldl_cons,
        List.foldl_nil, Op.apply, Function.update_of_ne (target_ne_temp _), Function.update_self,
        Function.update_self]

theorem remove_target (deleted : Bool) (disk : WideDisk) (path : Bytes) :
    applyAll (remove widen deleted disk path).1 disk (widen path) = disk (widen path) ∨
      (applyAll (remove widen deleted disk path).1 disk (widen path)).content = none := by
  rw [remove]
  split
  · exact Or.inl rfl
  · split
    · exact Or.inl rfl
    · split
      · refine Or.inr ?_
        rw [applyAll, List.foldl_cons, List.foldl_nil, Op.apply, Function.update_self]
      · exact Or.inl rfl

/-! ## Runs -/

/-- What happens to a file: a call that comes back, or one that the power failure overtakes
behind so many operations. -/
inductive Event
  | save (calls : Calls) (content : Bytes)
  | cut (calls : Calls) (content : Bytes) (k : ℕ)

def Event.calls : Event → Calls
  | .save calls _ => calls
  | .cut calls _ _ => calls

def Event.content : Event → Bytes
  | .save _ content => content
  | .cut _ content _ => content

/-- What an event asks of the file as a register. -/
def Event.request (widen : Bytes → WideString) (path : Bytes) : Event → Request Bytes
  | .save calls content => .save content (writeAtomic widen calls path content).2
  | .cut _ content _ => .cut content

inductive Step (widen : Bytes → WideString) (path : Bytes) : WideDisk → Event → WideDisk → Prop
  | save (disk : WideDisk) (calls : Calls) (content : Bytes) :
      Step widen path disk (.save calls content)
        (applyAll (writeAtomic widen calls path content).1 disk)
  | cut (disk disk' : WideDisk) (calls : Calls) (content : Bytes) (k : ℕ)
      (hsurvives : Survives
        (applyAll ((writeAtomic widen calls path content).1.take k) disk) disk') :
      Step widen path disk (.cut calls content k) disk'

inductive Run (widen : Bytes → WideString) (path : Bytes) (first : WideDisk) :
    List Event → WideDisk → Prop
  | nil : Run widen path first [] first
  | concat {events : List Event} {event : Event} {disk disk' : WideDisk}
      (h : Run widen path first events disk) (hstep : Step widen path disk event disk') :
      Run widen path first (events ++ [event]) disk'

theorem stored_eq_self {content : Bytes} (h : content.length < 2 ^ 32) :
    stored content = content := by
  rw [stored, Nat.mod_eq_of_lt h, List.take_length]

theorem Step.replaces {path : Bytes} {disk disk' : WideDisk} {event : Event}
    (h : Step widen path disk event disk') (hsettled : (disk (widen path)).settled = true)
    (hflushed : event.calls.flushed = true) (hlength : event.content.length < 2 ^ 32) :
    Replaces (disk (widen path)).content (event.request widen path) (disk' (widen path)).content ∧
      (disk' (widen path)).settled = true := by
  have hcontent := stored_eq_self hlength
  cases h with
  | save calls content =>
      rw [Event.request, writeAtomic_target]
      cases (writeAtomic widen calls path content).2 with
      | false => exact ⟨.refused _ _, hsettled⟩
      | true =>
          rw [if_pos rfl]
          dsimp only [Event.content] at hcontent
          rw [hcontent]
          exact ⟨.saved _ _, hflushed⟩
  | cut _ calls content k hsurvives =>
      have htarget := hsurvives (widen path)
      refine ⟨?_, htarget.1⟩
      rcases writeAtomic_take widen calls path content k disk (target_ne_temp (widen path)) with
        hsame | ⟨-, -, hnew⟩
      · rw [hsame] at htarget
        rw [htarget.2 hsettled]
        exact .lost _ _
      · rw [hnew] at htarget
        dsimp only [Event.content] at hcontent
        rw [htarget.2 hflushed, hcontent]
        exact .kept _ _

theorem Run.replaced {path : Bytes} {first disk : WideDisk} {events : List Event}
    (h : Run widen path first events disk) (hsettled : (first (widen path)).settled = true)
    (hevents : ∀ event ∈ events,
      event.calls.flushed = true ∧ event.content.length < 2 ^ 32) :
    Replaced (first (widen path)).content (events.map (Event.request widen path))
        (disk (widen path)).content ∧ (disk (widen path)).settled = true := by
  induction h with
  | nil => exact ⟨.nil, hsettled⟩
  | @concat events event disk disk' _ hstep ih =>
      have ih := ih fun event' hmem => hevents event' (List.mem_append_left _ hmem)
      have hlast := hevents event (by simp)
      have hreplaces := hstep.replaces ih.2 hlast.1 hlast.2
      rw [List.map_append]
      exact ⟨ih.1.concat hreplaces.1, hreplaces.2⟩

/-- Over all saves and power failures the file is a register: whoever reads it gets the content
of the last save that succeeded, or one whose save a power failure has overtaken since, and
always the whole of it. -/
theorem readAll_whole {path : Bytes} {first disk : WideDisk} {events : List Event}
    (h : Run widen path first events disk) (hsettled : (first (widen path)).settled = true)
    (hevents : ∀ event ∈ events,
      event.calls.flushed = true ∧ event.content.length < 2 ^ 32) :
    Replaced (first (widen path)).content (events.map (Event.request widen path))
        (disk (widen path)).content ∧
      ∀ calls out read, readAll widen calls disk path out = (true, read) →
        some read ∈ candidates (first (widen path)).content
          (events.map (Event.request widen path)) := by
  have hreplaced := (h.replaced hsettled hevents).1
  refine ⟨hreplaced, fun calls out read hread => ?_⟩
  rw [← readAll_eq_true hread]
  exact hreplaced.mem_candidates

end

def sampleWiden (path : Bytes) : WideString := path.map UInt8.toUInt16

/-- The power fails before the second content has taken the place of the first. -/
def sampleEvents : List Event := [.save {} [1, 2], .cut {} [3, 4] 2]

def sampleSaved : WideDisk := applyAll (writeAtomic sampleWiden {} [97] [1, 2]).1 fun _ => {}

def sampleLeft : WideDisk :=
  calm (applyAll ((writeAtomic sampleWiden {} [97] [3, 4]).1.take 2) sampleSaved)

theorem sampleLeft_run : Run sampleWiden [97] (fun _ => {}) sampleEvents sampleLeft :=
  .concat (.concat .nil (.save _ _ _)) (.cut _ _ _ _ _ (survives_calm _))

theorem readAll_whole_sample :
    Replaced none (sampleEvents.map (Event.request sampleWiden [97]))
        (sampleLeft (sampleWiden [97])).content ∧
      ∀ calls out read, readAll sampleWiden calls sampleLeft [97] out = (true, read) →
        some read ∈ candidates none (sampleEvents.map (Event.request sampleWiden [97])) :=
  readAll_whole sampleLeft_run rfl (by decide)

end FileUtil

end SplitHello
