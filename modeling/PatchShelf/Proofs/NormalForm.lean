/-
Module: PatchShelf.Proofs.NormalForm
Purpose: Normal forms of absolute paths: what they hold and what they end in.
Main exports:
  Path.descend, Path.EndsIn, Path.head?_stack_iff, Path.getLast?_normalize_iff,
  Path.lastComponent_toText
-/
import Mathlib.Data.List.Induction
import PatchShelf.Proofs.Path

/-!
A normal form is kept as a stack of components, the last one on top.  A component is
on top at the end exactly if those behind it cancel out: they never go above it and
they come back to it.
-/

namespace PatchShelf

namespace Path

/-- The depth that components lead to from a depth below some component; none if they
go above it. -/
def descend : (depth : Nat) → List Text → Option Nat
  | depth, [] => some depth
  | depth, part :: rest =>
    if part = up then
      match depth with
      | 0 => none
      | above + 1 => descend above rest
    else descend (depth + 1) rest

theorem descend_zero_up (rest : List Text) : descend 0 (up :: rest) = none := by
  rw [descend.eq_def]
  exact if_pos rfl

theorem descend_succ_up (above : Nat) (rest : List Text) :
    descend (above + 1) (up :: rest) = descend above rest := by
  rw [descend.eq_def]
  exact if_pos rfl

theorem descend_of_ne {part : Text} (other : part ≠ up) (depth : Nat) (rest : List Text) :
    descend depth (part :: rest) = descend (depth + 1) rest := by
  rw [descend.eq_def]
  exact if_neg other

theorem descend_append (depth : Nat) (first second : List Text) :
    descend depth (first ++ second) = (descend depth first).bind fun reached =>
      descend reached second := by
  induction first generalizing depth with
  | nil => rfl
  | cons part rest ih =>
      rw [List.cons_append]
      by_cases upwards : part = up
      · rw [upwards]
        cases depth with
        | zero => rw [descend_zero_up, descend_zero_up, Option.bind_none]
        | succ above => rw [descend_succ_up, descend_succ_up, ih above]
      · rw [descend_of_ne upwards, descend_of_ne upwards, ih (depth + 1)]

/-- Do components, read one after the other, end in the one that is named? -/
def EndsIn (named : Text) (parts : List Text) : Prop :=
  ∃ before after, parts = before ++ named :: after ∧ descend 0 after = some 0

/-- The components of an absolute normal form while it is built, the last one first. -/
def stack (parts : List Text) : List Text :=
  parts.foldl (pushPart true) []

theorem stack_append_singleton (parts : List Text) (part : Text) :
    stack (parts ++ [part]) = pushPart true (stack parts) part := by
  simp [stack]

theorem pushPart_of_ne {part : Text} (other : part ≠ up) (reversed : List Text) :
    pushPart true reversed part = part :: reversed := by
  rw [pushPart.eq_def, if_neg other]

theorem pushPart_up {reversed : List Text} (free : up ∉ reversed) :
    pushPart true reversed up = reversed.tail := by
  cases reversed with
  | nil => rfl
  | cons last rest =>
      have other : last ≠ up := fun same => free (by simp [same])
      rw [pushPart.eq_def, if_pos rfl]
      simp only
      rw [if_neg other]
      rfl

theorem mem_of_mem_pushPart {reversed : List Text} (free : up ∉ reversed) {part member : Text}
    (held : member ∈ pushPart true reversed part) :
    member ≠ up ∧ (member = part ∨ member ∈ reversed) := by
  by_cases upwards : part = up
  · rw [upwards, pushPart_up free] at held
    have old := List.mem_of_mem_tail held
    exact ⟨fun same => free (same ▸ old), .inr old⟩
  · rw [pushPart_of_ne upwards] at held
    rcases List.mem_cons.1 held with rfl | old
    · exact ⟨upwards, .inl rfl⟩
    · exact ⟨fun same => free (same ▸ old), .inr old⟩

/-- What is on the stack was pushed, and is no `..`. -/
theorem mem_of_mem_foldl {parts reversed : List Text} (free : up ∉ reversed) {member : Text}
    (held : member ∈ parts.foldl (pushPart true) reversed) :
    member ≠ up ∧ (member ∈ parts ∨ member ∈ reversed) := by
  induction parts generalizing reversed with
  | nil => exact ⟨fun same => free (same ▸ held), .inr held⟩
  | cons part rest ih =>
      have freeNext : up ∉ pushPart true reversed part :=
        fun bad => (mem_of_mem_pushPart free bad).1 rfl
      obtain ⟨other, from_⟩ := ih freeNext held
      refine ⟨other, ?_⟩
      rcases from_ with later | pushed
      · exact .inl (List.mem_cons_of_mem _ later)
      · rcases (mem_of_mem_pushPart free pushed).2 with rfl | old
        · exact .inl List.mem_cons_self
        · exact .inr old

theorem mem_of_mem_stack {parts : List Text} {member : Text} (held : member ∈ stack parts) :
    member ≠ up ∧ member ∈ parts := by
  obtain ⟨other, from_⟩ := mem_of_mem_foldl (List.not_mem_nil) held
  exact ⟨other, by simpa using from_⟩

theorem up_notMem_stack (parts : List Text) : up ∉ stack parts :=
  fun bad => (mem_of_mem_stack bad).1 rfl

/-- Without `..` everything stays on the stack. -/
theorem stack_of_free {parts : List Text} (free : up ∉ parts) : stack parts = parts.reverse := by
  induction parts using List.reverseRecOn with
  | nil => rfl
  | append_singleton parts part ih =>
      rw [List.mem_append, not_or] at free
      have other : part ≠ up := fun same => free.2 (by simp [same])
      rw [stack_append_singleton, ih free.1, pushPart_of_ne other, List.reverse_append]
      rfl

/-- What stands on the stack at an index has only followers that lead to that depth. -/
theorem exists_of_getElem?_stack {parts : List Text} {named : Text} {index : Nat}
    (held : (stack parts)[index]? = some named) :
    ∃ before after, parts = before ++ named :: after ∧ descend 0 after = some index := by
  -- The components are taken from the end, as they were pushed.
  induction parts using List.reverseRecOn generalizing index with
  | nil => cases held
  | append_singleton parts part ih =>
      rw [stack_append_singleton] at held
      by_cases upwards : part = up
      · rw [upwards, pushPart_up (up_notMem_stack parts), List.getElem?_tail] at held
        obtain ⟨before, after, rfl, depth⟩ := ih held
        refine ⟨before, after ++ [part], by simp, ?_⟩
        rw [descend_append, depth, Option.bind_some, upwards, descend_succ_up]
        rfl
      · rw [pushPart_of_ne upwards] at held
        cases index with
        | zero =>
            obtain rfl := Option.some.inj held
            exact ⟨parts, [], rfl, rfl⟩
        | succ index =>
            rw [List.getElem?_cons_succ] at held
            obtain ⟨before, after, rfl, depth⟩ := ih held
            refine ⟨before, after ++ [part], by simp, ?_⟩
            rw [descend_append, depth, Option.bind_some, descend_of_ne upwards]
            rfl

/-- Components that do not go above what is on the stack leave it there. -/
theorem exists_foldl_of_descend {after : List Text} {depth reached : Nat}
    (leads : descend depth after = some reached) {pushed base : List Text}
    (free : up ∉ pushed) (high : pushed.length = depth) :
    ∃ left, left.length = reached ∧
      after.foldl (pushPart true) (pushed ++ base) = left ++ base := by
  induction after generalizing depth pushed with
  | nil =>
      obtain rfl := Option.some.inj leads
      exact ⟨pushed, high, rfl⟩
  | cons part rest ih =>
      by_cases upwards : part = up
      · rw [upwards] at leads
        cases pushed with
        | nil =>
            obtain rfl : depth = 0 := high.symm
            rw [descend_zero_up] at leads
            cases leads
        | cons last pushed =>
            obtain rfl : depth = pushed.length + 1 := high.symm
            rw [descend_succ_up] at leads
            -- A `..` takes away what was pushed last, and nothing of the base.
            have other : last ≠ up := fun same => free (by simp [same])
            have popped : pushPart true (last :: pushed ++ base) part = pushed ++ base := by
              rw [upwards, pushPart.eq_def, if_pos rfl]
              simp [other]
            rw [List.foldl_cons, popped]
            exact ih leads (fun bad => free (List.mem_cons_of_mem _ bad)) rfl
      · rw [descend_of_ne upwards] at leads
        rw [List.foldl_cons, pushPart_of_ne upwards, ← List.cons_append]
        refine ih leads ?_ (by simp [high])
        rw [List.mem_cons, not_or]
        exact ⟨Ne.symm upwards, free⟩

/-- On top of the stack is what the components end in. -/
theorem head?_stack_iff (parts : List Text) {named : Text} (other : named ≠ up) :
    (stack parts).head? = some named ↔ EndsIn named parts := by
  constructor
  · intro top
    rw [List.head?_eq_getElem?] at top
    exact exists_of_getElem?_stack top
  · rintro ⟨before, after, rfl, cancels⟩
    obtain ⟨left, high, folded⟩ : ∃ left, left.length = 0 ∧
        after.foldl (pushPart true) ([] ++ named :: stack before) =
          left ++ named :: stack before :=
      exists_foldl_of_descend cancels List.not_mem_nil rfl
    obtain rfl := List.length_eq_zero_iff.1 high
    have pushed : stack (before ++ named :: after) =
        after.foldl (pushPart true) (named :: stack before) := by
      rw [stack, List.foldl_append, List.foldl_cons, pushPart_of_ne other]
      rfl
    rw [pushed]
    simpa using congrArg List.head? folded

/-- Components end in one that only the later ones have exactly if the later ones do. -/
theorem endsIn_append_iff {named : Text} {first second : List Text} (absent : named ∉ first) :
    EndsIn named (first ++ second) ↔ EndsIn named second := by
  constructor
  · rintro ⟨before, after, shape, cancels⟩
    rcases List.append_eq_append_iff.1 shape with ⟨middle, rfl, later⟩ | ⟨middle, earlier, later⟩
    · exact ⟨middle, after, later, cancels⟩
    · cases middle with
      | nil => exact ⟨[], after, by simpa using later.symm, cancels⟩
      | cons part middle =>
          obtain ⟨rfl, -⟩ := List.cons.inj later
          exact absurd (by simp [earlier]) absent
  · rintro ⟨before, after, rfl, cancels⟩
    exact ⟨first ++ before, after, by simp, cancels⟩

theorem normalize_of_isAbsolute {path : Path} (absolute : path.isAbsolute = true) :
    path.normalize = ⟨path.anchor, (stack path.parts).reverse⟩ := by
  rw [normalize, absolute]
  rfl

/-- An absolute path without `..` is in normal form. -/
theorem normalize_of_free {path : Path} (absolute : path.isAbsolute = true)
    (free : up ∉ path.parts) : path.normalize = path := by
  rw [normalize_of_isAbsolute absolute, stack_of_free free, List.reverse_reverse]

/-- A component of an absolute normal form is one of the path, and no `..`. -/
theorem mem_of_mem_normalize {path : Path} (absolute : path.isAbsolute = true) {member : Text}
    (held : member ∈ path.normalize.parts) : member ≠ up ∧ member ∈ path.parts := by
  rw [normalize_of_isAbsolute absolute] at held
  exact mem_of_mem_stack (List.mem_reverse.1 held)

/-- An absolute normal form has the last component that the path ends in. -/
theorem getLast?_normalize_iff {path : Path} (absolute : path.isAbsolute = true) {named : Text}
    (other : named ≠ up) :
    path.normalize.parts.getLast? = some named ↔ EndsIn named path.parts := by
  rw [normalize_of_isAbsolute absolute, List.getLast?_reverse]
  exact head?_stack_iff path.parts other

theorem isAbsolute_normalize (path : Path) : path.normalize.isAbsolute = path.isAbsolute := rfl

theorem isAbsolute_absolute (path : Path) : path.absolute.isAbsolute = true := by
  rw [absolute, isAbsolute_normalize]
  exact isAbsolute_join rfl path

theorem mem_of_mem_absolute (path : Path) {member : Text} (held : member ∈ path.absolute.parts) :
    member ∈ path.parts := by
  have joined := (mem_of_mem_normalize (isAbsolute_join rfl path) held).2
  rcases mem_of_mem_join joined with above | inPath
  · cases above
  · exact inPath

/-- The last component of the text of an absolute path is that of the path. -/
theorem lastComponent_toText {path : Path} (absolute : path.isAbsolute = true)
    (valid : ∀ part ∈ path.parts, IsPart part) :
    lastComponent path.toText = path.parts.getLastD [] := by
  obtain ⟨anchor, parts⟩ := path
  by_cases bare : parts = []
  · subst bare
    cases anchor with
    | relative => simp [isAbsolute] at absolute
    | root => rfl
    | doubleRoot => rfl
  · obtain ⟨lead, shown⟩ := Text.exists_joinWith_eq_append "/" bare
    have isPart := valid _ (List.getLast_mem bare)
    have slash : ("/" : Text) = [Glyph.char '/'] := rfl
    have slashes : ("//" : Text) = [Glyph.char '/', Glyph.char '/'] := rfl
    have fields : Text.splitOn '/' (Text.joinWith [Glyph.char '/'] parts) = parts :=
      Text.splitOn_joinWith bare fun part member => (valid part member).whole
    -- Nothing is dropped at the end, so the fields are the components behind the slashes.
    have kept (before : Text) : (before ++ Text.joinWith "/" parts).dropEndWhile (·.isChar '/') =
        before ++ Text.joinWith "/" parts := by
      rw [shown, ← List.append_assoc]
      refine Text.dropEndWhile_append isPart.nonempty fun glyph member => ?_
      have other : glyph ≠ Glyph.char '/' := fun same => isPart.whole (same ▸ member)
      simpa [Glyph.isChar] using other
    have last : ([] :: parts).getLastD [] = parts.getLastD [] := by
      cases parts with
      | nil => exact absurd rfl bare
      | cons part rest => rfl
    cases anchor with
    | relative => simp [isAbsolute] at absolute
    | root =>
        show ((("/" : Text) ++ Text.joinWith "/" parts).dropEndWhile _ |>.splitOn '/').getLastD
          [] = _
        rw [kept, slash, List.singleton_append, Text.splitOn_separator_cons, fields]
        exact last
    | doubleRoot =>
        show ((("//" : Text) ++ Text.joinWith "/" parts).dropEndWhile _ |>.splitOn '/').getLastD
          [] = _
        rw [kept, slashes, slash, List.cons_append, List.singleton_append,
          Text.splitOn_separator_cons, Text.splitOn_separator_cons, fields]
        exact last

end Path

end PatchShelf
