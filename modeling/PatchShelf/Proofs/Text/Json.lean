/-
Module: PatchShelf.Proofs.Text.Json
Purpose: The grammar of structured text, and what a text that follows it stands for.
Main exports:
  Json.Value, Json.isPlain, Json.AllPlain, Json.Body, Json.Part, Json.Reads, Json.IsDocument,
  Json.Body.plain_or_shorter, Json.body_plain_iff, Json.reads_members_iff,
  Json.reads_member_cons_iff, Json.Reads.length_content_lt
-/
import PatchShelf.Text.Basic

/-!
The grammar is a relation of a text, what its front stands for, and the text behind that
front.  It is stated without regard to who writes or reads: values, the elements of an
array behind its opening bracket or a comma, and the members of an object in the same way
are the three kinds of front.

Inside quotation marks a glyph stands for itself if it is plain.  Every other way to write a
glyph takes at least two glyphs, so what is read is never longer than what was written, and as
long as it only if nothing was written in another way.
-/

namespace PatchShelf

namespace Json

/-- What a structured text stands for; a number is the text that writes it. -/
inductive Value where
  | null
  | truth (holds : Bool)
  | number (digits : Text)
  | string (content : Text)
  | array (values : List Value)
  | object (members : List (Text × Value))

/-- The glyphs that may stand between the parts of a structured text. -/
def isBlank (glyph : Glyph) : Bool :=
  glyph.isChar ' ' || glyph.isChar '\t' || glyph.isChar '\n' || glyph.isChar '\r'

/-- The text from its first glyph that is no blank. -/
def skip (text : Text) : Text :=
  text.dropWhile isBlank

/-! ### Strings -/

/-- A glyph that stands for itself between quotation marks: no control character, no
quotation mark and no backslash. -/
def isPlain (glyph : Glyph) : Bool :=
  decide (0x20 ≤ glyph.code) && !glyph.isChar '"' && !glyph.isChar '\\'

/-- All the glyphs stand for themselves between quotation marks. -/
def AllPlain (text : Text) : Prop :=
  ∀ glyph ∈ text, isPlain glyph = true

instance (text : Text) : Decidable (AllPlain text) :=
  inferInstanceAs (Decidable (∀ glyph ∈ text, isPlain glyph = true))

/-- The letters behind a backslash, and the characters they stand for. -/
def shortEscapes : List (Char × Char) :=
  [('"', '"'), ('\\', '\\'), ('/', '/'), ('b', Char.ofNat 0x08), ('f', Char.ofNat 0x0C),
    ('n', '\n'), ('r', '\r'), ('t', '\t')]

/-- The number of a hexadecimal digit. -/
def hexDigit? : Glyph → Option Nat
  | .raw _ => none
  | .char scalar =>
    if '0' ≤ scalar ∧ scalar ≤ '9' then some (scalar.toNat - '0'.toNat)
    else if 'a' ≤ scalar ∧ scalar ≤ 'f' then some (10 + scalar.toNat - 'a'.toNat)
    else if 'A' ≤ scalar ∧ scalar ≤ 'F' then some (10 + scalar.toNat - 'A'.toNat)
    else none

/-- The number of four hexadecimal digits. -/
def quad? : Text → Option Nat
  | [first, second, third, fourth] => do
    pure ((((← hexDigit? first) * 16 + (← hexDigit? second)) * 16 + (← hexDigit? third)) * 16
      + (← hexDigit? fourth))
  | _ => none

/-- The text behind an opening quotation mark, what the string holds, and the text behind its
closing quotation mark. -/
inductive Body : Text → Text → Text → Prop where
  | close {rest} : Body (.char '"' :: rest) [] rest
  | plain {glyph text content rest} :
      isPlain glyph = true → Body text content rest →
      Body (glyph :: text) (glyph :: content) rest
  | short {letter scalar text content rest} :
      (letter, scalar) ∈ shortEscapes → Body text content rest →
      Body (.char '\\' :: .char letter :: text) (.char scalar :: content) rest
  | spelled {digits text content rest} {glyph : Glyph} :
      quad? digits = some glyph.code → Body text content rest →
      Body (.char '\\' :: .char 'u' :: (digits ++ text)) (glyph :: content) rest
  | paired {upper lower text content rest} {high low : Nat} {glyph : Glyph} :
      quad? upper = some high → 0xD800 ≤ high → high < 0xDC00 →
      quad? lower = some low → 0xDC00 ≤ low → low < 0xE000 →
      glyph.code = 0x10000 + (high - 0xD800) * 0x400 + (low - 0xDC00) →
      Body text content rest →
      Body (.char '\\' :: .char 'u' :: (upper ++ .char '\\' :: .char 'u' :: (lower ++ text)))
        (glyph :: content) rest

/-! ### Numbers -/

/-- Decimal digits, at least one. -/
def IsDigits (text : Text) : Prop :=
  text ≠ [] ∧ ∀ glyph ∈ text, ∃ scalar : Char, '0' ≤ scalar ∧ scalar ≤ '9' ∧ glyph = .char scalar

/-- A number: a sign, a whole part without zeros in front, a fraction and an exponent, of
which only the whole part has to be there. -/
inductive IsNumber : Text → Prop where
  | mk {sign whole fraction exponent : Text} :
      (sign = [] ∨ sign = "-") →
      (whole = "0" ∨ (IsDigits whole ∧ whole.head? ≠ some (.char '0'))) →
      (fraction = [] ∨ ∃ digits, IsDigits digits ∧ fraction = .char '.' :: digits) →
      (exponent = [] ∨ ∃ mark plus digits, mark ∈ ['e', 'E'] ∧
        plus ∈ ([[], "+", "-"] : List Text) ∧ IsDigits digits ∧
        exponent = .char mark :: (plus ++ digits)) →
      IsNumber (sign ++ whole ++ fraction ++ exponent)

/-! ### Values -/

/-- What the front of a structured text can be: a value, the elements of an array up to its
closing bracket, or the members of an object up to its closing brace. -/
inductive Part where
  | value (value : Value)
  | elements (values : List Value)
  | members (members : List (Text × Value))

/-- The text, what its front stands for, and the text behind that front. -/
inductive Reads : Text → Part → Text → Prop where
  | null {rest} : Reads ("null" ++ rest) (.value .null) rest
  | truth {rest} : Reads ("true" ++ rest) (.value (.truth true)) rest
  | falsehood {rest} : Reads ("false" ++ rest) (.value (.truth false)) rest
  | number {digits rest} : IsNumber digits → Reads (digits ++ rest) (.value (.number digits)) rest
  | string {text content rest} :
      Body text content rest → Reads (.char '"' :: text) (.value (.string content)) rest
  | emptyArray {text rest} :
      skip text = .char ']' :: rest → Reads (.char '[' :: text) (.value (.array [])) rest
  | array {text values rest} :
      Reads text (.elements values) rest → Reads (.char '[' :: text) (.value (.array values)) rest
  | lastElement {text value behind rest} :
      Reads (skip text) (.value value) behind → skip behind = .char ']' :: rest →
      Reads text (.elements [value]) rest
  | element {text value behind next values rest} :
      Reads (skip text) (.value value) behind → skip behind = .char ',' :: next →
      Reads next (.elements values) rest →
      Reads text (.elements (value :: values)) rest
  | emptyObject {text rest} :
      skip text = .char '}' :: rest → Reads (.char '{' :: text) (.value (.object [])) rest
  | object {text members rest} :
      Reads text (.members members) rest →
      Reads (.char '{' :: text) (.value (.object members)) rest
  | lastMember {text named name colon content value behind rest} :
      skip text = .char '"' :: named → Body named name colon → skip colon = .char ':' :: content →
      Reads (skip content) (.value value) behind → skip behind = .char '}' :: rest →
      Reads text (.members [(name, value)]) rest
  | member {text named name colon content value behind next members rest} :
      skip text = .char '"' :: named → Body named name colon → skip colon = .char ':' :: content →
      Reads (skip content) (.value value) behind → skip behind = .char ',' :: next →
      Reads next (.members members) rest →
      Reads text (.members ((name, value) :: members)) rest

/-- The whole text is one value, with blanks around it at most. -/
def IsDocument (text : Text) (value : Value) : Prop :=
  ∃ rest, Reads (skip text) (.value value) rest ∧ skip rest = []

/-- The value of a name among the members of an object; of several members with one name the
last one counts. -/
def field? (members : List (Text × Value)) (name : Text) : Option Value :=
  (members.reverse.find? fun member => member.1 == name).map Prod.snd

/-- A field that is found is among the members. -/
theorem mem_of_field? {members : List (Text × Value)} {name : Text} {value : Value}
    (found : field? members name = some value) : (name, value) ∈ members := by
  obtain ⟨member, sought, rfl⟩ := Option.map_eq_some_iff.mp found
  have named : member.1 = name := by simpa using List.find?_some sought
  have held : member ∈ members := by simpa using List.mem_of_find?_eq_some sought
  rwa [← named]

/-! ### Blanks -/

@[simp] theorem skip_space (text : Text) : skip (.char ' ' :: text) = skip text := rfl

/-- What is not blank is not skipped. -/
theorem skip_cons_of_not_blank {glyph : Glyph} (visible : isBlank glyph = false) (text : Text) :
    skip (glyph :: text) = glyph :: text := by
  simp [skip, visible]

/-- Skipping makes no text longer. -/
theorem length_skip_le (text : Text) : (skip text).length ≤ text.length :=
  (List.dropWhile_suffix isBlank).length_le

/-- What is behind a glyph that comes first after the blanks is shorter than the text. -/
theorem length_lt_of_skip {text rest : Text} {glyph : Glyph} (begins : skip text = glyph :: rest) :
    rest.length < text.length := by
  have bound := length_skip_le text
  rw [begins, List.length_cons] at bound
  omega

/-! ### What a string holds -/

theorem allPlain_nil : AllPlain [] := by simp [AllPlain]

/-- A text is plain if each of its glyphs is. -/
theorem allPlain_cons {glyph : Glyph} {text : Text} :
    AllPlain (glyph :: text) ↔ isPlain glyph = true ∧ AllPlain text :=
  List.forall_mem_cons

/-- A string is written plainly, or it is written in more glyphs than it holds. -/
theorem Body.plain_or_shorter {text content rest : Text} (body : Body text content rest) :
    (AllPlain content ∧ text = content ++ .char '"' :: rest) ∨
      content.length + rest.length + 1 < text.length := by
  induction body with
  | close => exact .inl ⟨allPlain_nil, rfl⟩
  | plain plain _ ih =>
      obtain ⟨allPlain, rfl⟩ | shorter := ih
      · exact .inl ⟨allPlain_cons.mpr ⟨plain, allPlain⟩, rfl⟩
      · exact .inr (by simpa only [List.length_cons] using by omega)
  | short _ _ ih | spelled _ _ ih | paired _ _ _ _ _ _ _ _ ih =>
      refine .inr ?_
      obtain ⟨-, rfl⟩ | shorter := ih
      all_goals
        simp only [List.length_cons, List.length_append] at *
        omega

/-- A string and what is behind it are shorter than the text, by the quote. -/
theorem Body.length_lt {text content rest : Text} (body : Body text content rest) :
    content.length + rest.length < text.length := by
  obtain ⟨-, rfl⟩ | shorter := body.plain_or_shorter
  · simp only [List.length_append, List.length_cons]
    omega
  · omega

/-- A plain front is held as it stands, and the string ends at the quotation mark behind it. -/
theorem body_plain_iff {front text content rest : Text} (plain : AllPlain front) :
    Body (front ++ .char '"' :: text) content rest ↔ content = front ∧ rest = text := by
  induction front generalizing content with
  | nil =>
      constructor
      · intro body
        cases body with
        | close => exact ⟨rfl, rfl⟩
        | plain plain => exact absurd plain (by decide)
      · rintro ⟨rfl, rfl⟩
        exact .close
  | cons glyph front ih =>
      obtain ⟨first, others⟩ := allPlain_cons.mp plain
      rw [List.cons_append]
      constructor
      · intro body
        generalize same : front ++ Glyph.char '"' :: text = behind at body
        -- a plain glyph is neither the closing mark nor the backslash of an escape
        cases body with
        | plain _ body =>
            subst same
            obtain ⟨rfl, rfl⟩ := (ih others).mp body
            exact ⟨rfl, rfl⟩
        | close | short | spelled | paired => exact absurd first (by decide)
      · rintro ⟨rfl, rfl⟩
        exact .plain first ((ih others).mpr ⟨rfl, rfl⟩)

/-! ### Values by their first glyph -/

/-- A number begins with its sign or with a digit. -/
theorem IsNumber.exists_head {text : Text} (number : IsNumber text) :
    ∃ scalar rest, text = .char scalar :: rest ∧ (scalar = '-' ∨ '0' ≤ scalar ∧ scalar ≤ '9') := by
  cases number with
  | mk signed counted _ _ =>
      obtain rfl | rfl := signed
      · obtain rfl | ⟨⟨nonempty, digits⟩, -⟩ := counted
        · exact ⟨'0', _, rfl, .inr (by decide)⟩
        · obtain ⟨first, others, rfl⟩ := List.exists_cons_of_ne_nil nonempty
          obtain ⟨scalar, above, below, rfl⟩ := digits first List.mem_cons_self
          exact ⟨scalar, _, rfl, .inr ⟨above, below⟩⟩
      · exact ⟨'-', _, rfl, .inl rfl⟩

/-- What begins with a quote is a string or nothing. -/
theorem reads_string_iff {text rest : Text} {value : Value} :
    Reads (.char '"' :: text) (.value value) rest ↔
      ∃ content, value = .string content ∧ Body text content rest := by
  constructor
  · intro reads
    generalize opened : Glyph.char '"' :: text = whole at reads
    cases reads with
    | string body =>
        obtain ⟨-, rfl⟩ := List.cons.inj opened
        exact ⟨_, rfl, body⟩
    | number number =>
        obtain ⟨scalar, tail, rfl, range⟩ := number.exists_head
        obtain ⟨rfl, -⟩ : '"' = scalar ∧ _ := by simpa using opened
        exact absurd range (by decide)
    | null | truth | falsehood | emptyArray | array | emptyObject | object =>
        exact absurd (congrArg List.head? opened) (by simp [Text.ofString])
  · rintro ⟨content, rfl, body⟩
    exact .string body

/-- What begins with a brace is an object or nothing. -/
theorem reads_object_iff {text rest : Text} {value : Value} :
    Reads (.char '{' :: text) (.value value) rest ↔
      ∃ members, value = .object members ∧
        (members = [] ∧ skip text = .char '}' :: rest ∨ Reads text (.members members) rest) := by
  constructor
  · intro reads
    generalize opened : Glyph.char '{' :: text = whole at reads
    cases reads with
    | emptyObject closes =>
        obtain ⟨-, rfl⟩ := List.cons.inj opened
        exact ⟨[], rfl, .inl ⟨rfl, closes⟩⟩
    | object reads =>
        obtain ⟨-, rfl⟩ := List.cons.inj opened
        exact ⟨_, rfl, .inr reads⟩
    | number number =>
        obtain ⟨scalar, tail, rfl, range⟩ := number.exists_head
        obtain ⟨rfl, -⟩ : '{' = scalar ∧ _ := by simpa using opened
        exact absurd range (by decide)
    | null | truth | falsehood | string | emptyArray | array =>
        exact absurd (congrArg List.head? opened) (by simp [Text.ofString])
  · rintro ⟨members, rfl, ⟨rfl, closes⟩ | reads⟩
    · exact .emptyObject closes
    · exact .object reads

/-! ### Members of an object -/

/-- The text, the name and the value that its front gives to a member, and the text behind
that value. -/
def ReadsMember (text name : Text) (value : Value) (behind : Text) : Prop :=
  ∃ named colon content, skip text = .char '"' :: named ∧ Body named name colon ∧
    skip colon = .char ':' :: content ∧ Reads (skip content) (.value value) behind

/-- Members are read one by one, with commas between them. -/
theorem reads_members_iff {text rest : Text} {members : List (Text × Value)} :
    Reads text (.members members) rest ↔
      ∃ name value behind later, members = (name, value) :: later ∧
        ReadsMember text name value behind ∧
        (later = [] ∧ skip behind = .char '}' :: rest ∨
          ∃ next, skip behind = .char ',' :: next ∧ Reads next (.members later) rest) := by
  constructor
  · intro reads
    cases reads with
    | lastMember opens named parts value closes =>
        exact ⟨_, _, _, [], rfl, ⟨_, _, _, opens, named, parts, value⟩, .inl ⟨rfl, closes⟩⟩
    | member opens named parts value goesOn others =>
        exact ⟨_, _, _, _, rfl, ⟨_, _, _, opens, named, parts, value⟩, .inr ⟨_, goesOn, others⟩⟩
  · rintro ⟨name, value, behind, later, rfl, ⟨_, _, _, opens, named, parts, reads⟩, ends⟩
    obtain ⟨rfl, closes⟩ | ⟨next, goesOn, others⟩ := ends
    · exact .lastMember opens named parts reads closes
    · exact .member opens named parts reads goesOn others

/-- Blanks in front of a member do not matter. -/
theorem reads_members_space_iff {text rest : Text} {members : List (Text × Value)} :
    Reads (.char ' ' :: text) (.members members) rest ↔ Reads text (.members members) rest := by
  rw [reads_members_iff, reads_members_iff]
  simp only [ReadsMember, skip_space]

/-- The beginning of a member with a name, up to the opening quotation mark of its value. -/
def opening (name : Text) : Text :=
  .char '"' :: (name ++ "\": \"")

/-- Behind a plain name and the opening of a string, the member is that string. -/
theorem readsMember_opening_iff {name : Text} (plain : AllPlain name) {text read behind : Text}
    {value : Value} :
    ReadsMember (opening name ++ text) read value behind ↔
      read = name ∧ ∃ content, value = .string content ∧ Body text content behind := by
  have spread : opening name ++ text =
      .char '"' :: (name ++ .char '"' :: .char ':' :: .char ' ' :: .char '"' :: text) := by
    simp [opening, Text.ofString]
  have mark : ∀ text, skip (.char '"' :: text) = .char '"' :: text :=
    skip_cons_of_not_blank (by decide)
  have colon : ∀ text, skip (.char ':' :: text) = .char ':' :: text :=
    skip_cons_of_not_blank (by decide)
  rw [spread]
  constructor
  · rintro ⟨named, after, content, opens, body, parts, reads⟩
    obtain ⟨-, rfl⟩ := List.cons.inj ((mark _).symm.trans opens)
    obtain ⟨rfl, rfl⟩ := (body_plain_iff plain).mp body
    obtain ⟨-, rfl⟩ := List.cons.inj ((colon _).symm.trans parts)
    rw [skip_space, mark] at reads
    exact ⟨rfl, reads_string_iff.mp reads⟩
  · rintro ⟨rfl, content, rfl, body⟩
    refine ⟨_, _, _, mark _, (body_plain_iff plain).mpr ⟨rfl, rfl⟩, colon _, ?_⟩
    rw [skip_space, mark]
    exact .string body

/-- A member whose name and content are plain is read as it stands, and the others follow. -/
theorem reads_plain_member_iff {name content : Text} (named : AllPlain name)
    (plain : AllPlain content) {next rest : Text} {members : List (Text × Value)} :
    Reads (opening name ++ (content ++ .char '"' :: .char ',' :: next)) (.members members) rest ↔
      ∃ later, members = (name, .string content) :: later ∧
        Reads next (.members later) rest := by
  have comma : skip (.char ',' :: next) = .char ',' :: next :=
    skip_cons_of_not_blank (by decide) next
  rw [reads_members_iff]
  constructor
  · rintro ⟨read, value, behind, later, rfl, member, ends⟩
    obtain ⟨rfl, held, rfl, body⟩ := (readsMember_opening_iff named).mp member
    obtain ⟨rfl, rfl⟩ := (body_plain_iff plain).mp body
    rw [comma] at ends
    obtain ⟨-, closes⟩ | ⟨after, goesOn, others⟩ := ends
    · exact absurd (List.cons.inj closes).1 (by decide)
    · obtain ⟨-, rfl⟩ := List.cons.inj goesOn
      exact ⟨later, rfl, others⟩
  · rintro ⟨later, rfl, others⟩
    exact ⟨name, _, _, later, rfl, (readsMember_opening_iff named).mpr
      ⟨rfl, content, rfl, (body_plain_iff plain).mpr ⟨rfl, rfl⟩⟩, .inr ⟨next, comma, others⟩⟩

/-- A last member whose name and content are plain is read as it stands. -/
theorem reads_plain_last_iff {name content : Text} (named : AllPlain name)
    (plain : AllPlain content) {rest : Text} {members : List (Text × Value)} {after : Text} :
    Reads (opening name ++ (content ++ .char '"' :: .char '}' :: after)) (.members members) rest ↔
      members = [(name, .string content)] ∧ rest = after := by
  have brace : skip (.char '}' :: after) = .char '}' :: after :=
    skip_cons_of_not_blank (by decide) after
  rw [reads_members_iff]
  constructor
  · rintro ⟨read, value, behind, later, rfl, member, ends⟩
    obtain ⟨rfl, held, rfl, body⟩ := (readsMember_opening_iff named).mp member
    obtain ⟨rfl, rfl⟩ := (body_plain_iff plain).mp body
    rw [brace] at ends
    obtain ⟨rfl, closes⟩ | ⟨next, goesOn, -⟩ := ends
    · exact ⟨rfl, (List.cons.inj closes).2.symm⟩
    · exact absurd (List.cons.inj goesOn).1 (by decide)
  · rintro ⟨rfl, rfl⟩
    exact ⟨name, _, _, [], rfl, (readsMember_opening_iff named).mpr
      ⟨rfl, content, rfl, (body_plain_iff plain).mpr ⟨rfl, rfl⟩⟩, .inl ⟨rfl, brace⟩⟩

/-! ### What is read is never longer than what was written -/

/-- By induction on the reading, what is behind a part is shorter than the text. -/
theorem Reads.length_lt {text : Text} {part : Part} {rest : Text} (reads : Reads text part rest) :
    rest.length < text.length := by
  induction reads with
  | null | truth | falsehood =>
      rw [List.length_append]
      exact Nat.lt_add_of_pos_left (by decide)
  | number number =>
      obtain ⟨scalar, tail, rfl, -⟩ := number.exists_head
      rw [List.length_append, List.length_cons]
      omega
  | string body =>
      have bound := body.length_lt
      rw [List.length_cons]
      omega
  | emptyArray closes | emptyObject closes =>
      have bound := length_lt_of_skip closes
      rw [List.length_cons]
      omega
  | array _ ih | object _ ih =>
      rw [List.length_cons]
      omega
  | @lastElement text value behind rest _ closes ih =>
      have bound := length_lt_of_skip closes
      have := length_skip_le text
      omega
  | @element text value behind next values rest _ goesOn _ ih others =>
      have bound := length_lt_of_skip goesOn
      have := length_skip_le text
      omega
  | @lastMember text named name colon content value behind rest opens body parts _ closes ih =>
      have opened := length_lt_of_skip opens
      have read := body.length_lt
      have parted := length_lt_of_skip parts
      have := length_skip_le content
      have closed := length_lt_of_skip closes
      omega
  | @member text named name colon content value behind next members rest opens body parts _ goesOn
      _ ih others =>
      have opened := length_lt_of_skip opens
      have read := body.length_lt
      have parted := length_lt_of_skip parts
      have := length_skip_le content
      have went := length_lt_of_skip goesOn
      omega

/-- What is behind a member is shorter than the text. -/
theorem ReadsMember.length_lt {text name behind : Text} {value : Value}
    (member : ReadsMember text name value behind) : behind.length < text.length := by
  obtain ⟨named, colon, valued, opens, body, parts, reads⟩ := member
  have opened := length_lt_of_skip opens
  have read := body.length_lt
  have parted := length_lt_of_skip parts
  have skipped := length_skip_le valued
  have bound := reads.length_lt
  omega

/-- Its content is among what it takes. -/
theorem ReadsMember.length_content_lt {text name content behind : Text}
    (member : ReadsMember text name (.string content) behind) :
    content.length + behind.length < text.length := by
  obtain ⟨named, colon, valued, opens, body, parts, reads⟩ := member
  have opened := length_lt_of_skip opens
  have read := body.length_lt
  have parted := length_lt_of_skip parts
  have skipped := length_skip_le valued
  generalize skip valued = value at reads skipped
  cases reads with
  | string body =>
      have bound := body.length_lt
      rw [List.length_cons] at skipped
      omega

/-- A string that is the value of a member is shorter than the text of the members. -/
theorem Reads.length_content_lt {text rest : Text} {members : List (Text × Value)}
    (reads : Reads text (.members members) rest) {name content : Text}
    (held : (name, .string content) ∈ members) : content.length < text.length := by
  generalize kind : Part.members members = part at reads
  induction reads generalizing members with
  | lastMember opens body parts value closes =>
      cases kind
      obtain ⟨rfl, rfl⟩ := by simpa using held
      have bound := ReadsMember.length_content_lt ⟨_, _, _, opens, body, parts, value⟩
      omega
  | @member text named read colon valued value behind next later rest opens body parts reads goesOn
      others _ ih =>
      cases kind
      have member : ReadsMember text read value behind :=
        ⟨named, colon, valued, opens, body, parts, reads⟩
      obtain same | held := List.mem_cons.mp held
      · obtain ⟨rfl, rfl⟩ := by simpa using same
        have bound := member.length_content_lt
        omega
      · have bound := ih held rfl
        have went := length_lt_of_skip goesOn
        have := member.length_lt
        omega
  | null | truth | falsehood | number | string | emptyArray | array | lastElement | element
  | emptyObject | object => cases kind

end Json

end PatchShelf
