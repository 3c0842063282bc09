import TxEnvelope.Inspect.Run
import TxEnvelope.Proofs.Arguments
import TxEnvelope.Proofs.Transaction.Size
import TxEnvelope.Proofs.Trips

/-! The inspection command undoes itself.

The canonical bytes that are shown for a text can be given back to the command
in any spelling of their hex text. The record that it prints for them is a text
again, for which it shows the same kind, digest and bytes; only an annotation is
gone. It makes no difference whether a text is an operand, stands in a variable
or in a file, or comes from standard input.
-/

set_option autoImplicit false

namespace TxEnvelope.Inspect

section Texts

theorem toByteArray_eq (text : String) :
    text.toByteArray = ⟨(Bytes.ofText text.toList).toArray⟩ := by
  rw [← String.utf8Encode_toList]
  exact ByteArray.ext List.data_toByteArray

theorem utf8ByteSize_eq (text : String) :
    text.utf8ByteSize = (Bytes.ofText text.toList).length := by
  rw [String.utf8ByteSize, toByteArray_eq]
  rfl

theorem length_toList_le (text : String) : text.toList.length ≤ text.utf8ByteSize := by
  rw [utf8ByteSize_eq]
  generalize text.toList = chars
  induction chars with
  | nil => exact Nat.le_refl _
  | cons c chars ih =>
    have positive := c.utf8Size_pos
    rw [Hex.ofText_cons, List.length_append, String.length_utf8EncodeChar, List.length_cons]
    omega

theorem decodeText_eq_ok_iff {context text : String} {content : Bytes} :
    decodeText context content = .ok text ↔ content = Bytes.ofText text.toList := by
  have same : ⟨content.toArray⟩ = text.toByteArray ↔ content = Bytes.ofText text.toList := by
    rw [toByteArray_eq]
    simp only [ByteArray.mk.injEq, Array.mk.injEq, List.toArray]
  rw [← same, decodeText, String.fromUTF8?]
  by_cases valid : (⟨content.toArray⟩ : ByteArray).IsValidUTF8
  · rw [dif_pos valid]
    simp only [Except.ok.injEq, String.fromUTF8, ← String.toByteArray_inj]
  · rw [dif_neg valid]
    refine ⟨nofun, fun text' => absurd ?_ valid⟩
    rw [text']
    exact text.isValidUTF8

end Texts

section Trimming

variable {before core after : List Char}

theorem dropWhile_append_solid {text : List Char} (solid : ∀ c ∈ text, isWhiteSpace c = false)
    (there : text ≠ []) (rest : List Char) :
    (text ++ rest).dropWhile isWhiteSpace = text ++ rest := by
  cases text with
  | nil => exact absurd rfl there
  | cons c text =>
    rw [List.cons_append, List.dropWhile_cons_of_neg (by simp [solid c List.mem_cons_self])]

theorem trim_append (front : ∀ c ∈ before, isWhiteSpace c = true)
    (back : ∀ c ∈ after, isWhiteSpace c = true) (solid : ∀ c ∈ core, isWhiteSpace c = false)
    (there : core ≠ []) : trim (before ++ (core ++ after)) = core := by
  -- The end is trimmed as the front of the reversed text.
  have reversed : (core ++ after).reverse.dropWhile isWhiteSpace = core.reverse := by
    rw [List.reverse_append, List.dropWhile_append_of_pos (by simpa using back),
      ← List.append_nil core.reverse]
    exact dropWhile_append_solid (by simpa using solid) (by simpa using there) []
  rw [trim, List.dropWhile_append_of_pos front, dropWhile_append_solid solid there, reversed,
    List.reverse_reverse]

theorem isWhiteSpace_of_value? {c : Char} {v : Nat} (digit : Hex.value? c = some v) :
    isWhiteSpace c = false := by
  have all : ∀ code : Fin 128, (Hex.value? (Char.ofNat code)).isSome →
      isWhiteSpace (Char.ofNat code) = false := by decide
  -- White space beyond ASCII need not be looked at: a digit is never there.
  obtain ⟨code, rfl⟩ := exists_code (Hex.toNat_lt_of_value? digit)
  exact all code (Option.isSome_of_mem digit)

theorem char_of_spells {hex : List Char} {bytes : Bytes} (spells : Hex.Spells hex bytes) {c : Char}
    (mem : c ∈ hex) : c = 'x' ∨ c = 'X' ∨ (Hex.value? c).isSome = true := by
  obtain ⟨marker, known, digits, rfl, same⟩ := spells
  rcases List.mem_append.1 mem with mem | mem
  · have letter : c = 'x' ∨ c = 'X' ∨ c = '0' := by grind
    rcases letter with rfl | rfl | rfl
    · exact .inl rfl
    · exact .inr (.inl rfl)
    · exact .inr (.inr rfl)
  · have lower : c.toLower ∈ Hex.digitsOf bytes := same ▸ List.mem_map_of_mem mem
    rw [Hex.digitsOf_eq] at lower
    obtain ⟨v, half, spelled⟩ := List.mem_map.1 lower
    have digit := Hex.value?_digit (Hex.halves_lt v half)
    rw [spelled, Hex.value?_toLower] at digit
    exact .inr (.inr (Option.isSome_of_mem digit))

theorem isWhiteSpace_of_spells {hex : List Char} {bytes : Bytes} (spells : Hex.Spells hex bytes) :
    ∀ c ∈ hex, isWhiteSpace c = false := by
  intro c mem
  rcases char_of_spells spells mem with rfl | rfl | digit
  · rfl
  · rfl
  · obtain ⟨v, digit⟩ := Option.isSome_iff_exists.1 digit
    exact isWhiteSpace_of_value? digit

theorem isOption_ofList {c : Char} (dash : c ≠ '-') (rest : List Char) :
    isOption (String.ofList (c :: rest)) = false := by
  unfold isOption
  rw [String.toList_ofList]
  split
  · next same => exact absurd (List.cons.inj same).1 dash
  · rfl

theorem isOption_of_spells {hex : List Char} {bytes : Bytes} (spells : Hex.Spells hex bytes)
    (there : hex ≠ []) (front : ∀ c ∈ before, isWhiteSpace c = true) (after : List Char) :
    isOption (String.ofList (before ++ (hex ++ after))) = false := by
  cases before with
  | cons c before =>
    refine isOption_ofList (fun dash => ?_) _
    have white := front c List.mem_cons_self
    rw [dash] at white
    cases white
  | nil =>
    cases hex with
    | nil => exact absurd rfl there
    | cons c hex =>
      refine isOption_ofList (fun dash => ?_) _
      have spelled := char_of_spells spells List.mem_cons_self
      rw [dash] at spelled
      exact absurd spelled (by decide)

end Trimming

section Sources

variable {subcommand : Subcommand} {arguments : List String} {surroundings : Surroundings}
  {source : Source} {text path : String}

inductive Source.Holds (surroundings : Surroundings) (text : String) : Source → Prop where
  | stdin : surroundings.stdin = Bytes.ofText text.toList → Holds surroundings text .stdin
  | file {path : String} : path ≠ stdinPath →
    surroundings.file path = .ok (Bytes.ofText text.toList) → Holds surroundings text (.file path)
  | stdinFile : surroundings.stdin = Bytes.ofText text.toList →
    Holds surroundings text (.file stdinPath)
  | given : Holds surroundings text (.given text)

theorem read_eq_ok_iff : source.read surroundings = .ok text ↔ source.Holds surroundings text := by
  constructor
  · intro read
    cases source with
    | stdin => exact .stdin (decodeText_eq_ok_iff.1 read)
    | file path =>
      -- One path is not looked up among the files.
      by_cases same : path = stdinPath
      · subst same
        exact .stdinFile (decodeText_eq_ok_iff.1 read)
      · cases content : surroundings.file path with
        | error reason => simp [Source.read, same, content] at read
        | ok content' =>
          simp only [Source.read, if_neg same, content, decodeText_eq_ok_iff] at read
          exact .file same (content.trans (congrArg Except.ok read))
    | given given =>
      cases read
      exact .given
  · intro holds
    cases holds with
    | stdin content => exact decodeText_eq_ok_iff.2 content
    | file other content => simp [Source.read, other, content, decodeText_eq_ok_iff]
    | stdinFile content => exact decodeText_eq_ok_iff.2 content
    | given => rfl

/-- The text is what the arguments direct the subcommand to. -/
def Applies (subcommand : Subcommand) (arguments : List String) (surroundings : Surroundings)
    (text : String) : Prop :=
  ∃ source, Directs surroundings.environment arguments subcommand source ∧
    source.Holds surroundings text

theorem applies_operand (plain : isOption text = false) :
    Applies .raw ["raw", text] surroundings text :=
  ⟨_, .hex (calls_operand .raw plain), .given⟩

theorem applies_hexVariable (standIn : surroundings.environment.hex = some text) :
    Applies .raw ["raw"] surroundings text :=
  ⟨_, .hexVariable (calls_bare .raw) standIn, .given⟩

theorem applies_hexless (standIn : surroundings.environment.hex = none)
    (content : surroundings.stdin = Bytes.ofText text.toList) :
    Applies .raw ["raw"] surroundings text :=
  ⟨_, .hexless (calls_bare .raw) standIn, .stdin content⟩

theorem applies_path (plain : isOption path = false) (there : path ≠ "")
    (holds : (Source.file path).Holds surroundings text) :
    Applies .json ["json", path] surroundings text :=
  ⟨_, .path (calls_operand .json plain) there, holds⟩

theorem applies_pathVariable (standIn : surroundings.environment.path = some path)
    (there : path ≠ "") (holds : (Source.file path).Holds surroundings text) :
    Applies .json ["json"] surroundings text :=
  ⟨_, .pathVariable (calls_bare .json) standIn there, holds⟩

theorem applies_pathless (standIn : surroundings.environment.path = none)
    (content : surroundings.stdin = Bytes.ofText text.toList) :
    Applies .json ["json"] surroundings text :=
  ⟨_, .pathless (calls_bare .json) standIn, .stdin content⟩

end Sources

section Running

variable {subcommand : Subcommand} {arguments : List String} {surroundings : Surroundings}
  {text shown line : String}

theorem run_eq_shown_iff (applies : Applies subcommand arguments surroundings text) :
    run arguments surroundings = .shown shown ↔
      ∃ line, subcommand.inspect text = .ok line ∧ shown = line ++ "\n" := by
  obtain ⟨source, directed, holds⟩ := applies
  simp only [run, plan_eq_some_iff.2 directed, read_eq_ok_iff.2 holds, Except.bind]
  cases subcommand.inspect text <;> simp [eq_comm]

theorem run_of_applies (applies : Applies subcommand arguments surroundings text)
    (inspected : subcommand.inspect text = .ok line) :
    run arguments surroundings = .shown (line ++ "\n") :=
  (run_eq_shown_iff applies).2 ⟨line, inspected, rfl⟩

def report (kind : Kind) (digest : Hash) (bytes : Bytes) (nonce : Option UInt64) : String :=
  let lines :=
    ["type:  " ++ kind.name ++ " (" ++ String.ofList (typeByteText kind) ++ ")",
      "hash:  " ++ String.ofList (Hex.encode digest.bytes),
      "raw:   " ++ String.ofList (Hex.encode bytes)]
  let annotation := nonce.toList.map fun nonce =>
    "nonce: " ++ toString nonce.toNat ++ " (annotation)"
  String.intercalate "\n" (lines ++ annotation)

theorem describe_eq (tx : Transaction) :
    describe (.new tx) = report tx.kind tx.digest tx.encode tx.annotation? := by
  cases tx <;> rfl

theorem describe_normalise (tx : Transaction) :
    describe (.new tx.normalise) = report tx.kind tx.digest tx.encode none := by
  have bare : tx.normalise.annotation? = none := by cases tx <;> rfl
  have digest : tx.normalise.digest = tx.digest := congrArg Keccak.digest tx.encode_normalise
  rw [describe_eq, Transaction.kind_normalise, digest, Transaction.encode_normalise, bare]

theorem inspectJson_eq_ok_iff :
    inspectJson text = .ok line ↔
      ∃ envelope, Envelope.ofJson text = .ok envelope ∧ line = describe envelope := by
  unfold inspectJson
  cases Envelope.ofJson text <;> simp [eq_comm]

theorem ne_nil_of_spells {tx : Transaction} (small : tx.encode.length < 2 ^ 64) {hex : List Char}
    (spells : Hex.Spells hex tx.encode) : hex ≠ [] := by
  rintro rfl
  have whole := Transaction.decodeExact_encode small
  have nothing : tx.encode = [] := (Except.ok.inj spells.decode_eq).symm
  rw [nothing] at whole
  cases whole

theorem inspectRaw_spells {tx : Transaction} (small : tx.encode.length < 2 ^ 64)
    {before hex after : List Char} (spells : Hex.Spells hex tx.encode)
    (front : ∀ c ∈ before, isWhiteSpace c = true) (back : ∀ c ∈ after, isWhiteSpace c = true) :
    inspectRaw (String.ofList (before ++ (hex ++ after))) =
      .ok (String.ofList ((Envelope.new tx.normalise).record.1.document.print .indented)) := by
  -- The text is not trimmed away only because no transaction is empty.
  have trimmed :=
    trim_append front back (isWhiteSpace_of_spells spells) (ne_nil_of_spells small spells)
  rw [inspectRaw, String.toList_ofList, trimmed, spells.decode_eq]
  simp only [Transaction.decodeExact_encode small]

/-- The record that is printed for a portable transaction is read as the transaction. -/
theorem ofJson_print_indented {tx : Transaction} (portable : tx.IsPortable) {tail : List Char}
    (blank : Json.Blank tail) :
    Envelope.ofJson (String.ofList
      ((Envelope.new tx).record.1.document.print .indented ++ tail)) = .ok (.new tx) := by
  have read := (Envelope.new tx).record.1.parse_layout_append Json.Layout.indented_isBlank blank
  have made : (Envelope.new tx).record.1.toTransaction = .ok tx :=
    Record.toTransaction_ofTransaction _ portable.accepted
  rw [Envelope.ofJson, read]
  simp only [Envelope.ofRecord, made]
  rfl

/-- The answer of `raw` to a text, whether the text is an operand, stands in a variable, is piped
in or is given by any other arguments. -/
structure RawShows (text shown : String) : Prop where
  operand : ∀ surroundings : Surroundings, run ["raw", text] surroundings = .shown shown
  standIn : ∀ surroundings : Surroundings, surroundings.environment.hex = some text →
    run ["raw"] surroundings = .shown shown
  piped : ∀ surroundings : Surroundings, surroundings.environment.hex = none →
    surroundings.stdin = Bytes.ofText text.toList → run ["raw"] surroundings = .shown shown
  applied : ∀ (arguments : List String) (surroundings : Surroundings),
    Applies .raw arguments surroundings text → run arguments surroundings = .shown shown

/-- The answer of `json` to a text, whether the text is in a file that is an operand or stands in a
variable, is piped in or is given by any other arguments. -/
structure JsonShows (text shown : String) : Prop where
  operand : ∀ (path : String) (surroundings : Surroundings), isOption path = false → path ≠ "" →
    path ≠ stdinPath → surroundings.file path = .ok (Bytes.ofText text.toList) →
    run ["json", path] surroundings = .shown shown
  standIn : ∀ (path : String) (surroundings : Surroundings),
    surroundings.environment.path = some path → path ≠ "" → path ≠ stdinPath →
    surroundings.file path = .ok (Bytes.ofText text.toList) →
    run ["json"] surroundings = .shown shown
  piped : ∀ surroundings : Surroundings, surroundings.environment.path = none →
    surroundings.stdin = Bytes.ofText text.toList → run ["json"] surroundings = .shown shown
  applied : ∀ (arguments : List String) (surroundings : Surroundings),
    Applies .json arguments surroundings text → run arguments surroundings = .shown shown

theorem rawShows (plain : isOption text = false) (inspected : inspectRaw text = .ok line) :
    RawShows text (line ++ "\n") where
  operand _ := run_of_applies (applies_operand plain) inspected
  standIn _ standIn := run_of_applies (applies_hexVariable standIn) inspected
  piped _ standIn content := run_of_applies (applies_hexless standIn content) inspected
  applied _ _ applies := run_of_applies applies inspected

theorem jsonShows (inspected : inspectJson text = .ok line) : JsonShows text (line ++ "\n") where
  operand _ _ plain there other content :=
    run_of_applies (applies_path plain there (.file other content)) inspected
  standIn _ _ standIn there other content :=
    run_of_applies (applies_pathVariable standIn there (.file other content)) inspected
  piped _ standIn content := run_of_applies (applies_pathless standIn content) inspected
  applied _ _ applies := run_of_applies applies inspected

/-- What is shown for a text can be given back. Its canonical bytes, in hex with or without a
marker, with digits of either letter case and with white space around them, are shown as an indented
record, and for that the same kind, digest and bytes are shown again, without an annotation. -/
theorem command_round_trip (applies : Applies .json arguments surroundings text)
    (short : text.utf8ByteSize < 2 ^ 63) (accepted : run arguments surroundings = .shown shown) :
    ∃ (tx : Transaction) (printed : Json.Document), Envelope.ofJson text = .ok (.new tx) ∧
      shown = report tx.kind tx.digest tx.encode tx.annotation? ++ "\n" ∧
      (∀ before hex after : List Char, (∀ c ∈ before, isWhiteSpace c = true) →
        (∀ c ∈ after, isWhiteSpace c = true) → Hex.Spells hex tx.encode →
        RawShows (String.ofList (before ++ (hex ++ after)))
          (String.ofList (printed.print .indented) ++ "\n")) ∧
      ∀ tail : List Char, Json.Blank tail →
        JsonShows (String.ofList (printed.print .indented ++ tail))
          (report tx.kind tx.digest tx.encode none ++ "\n") := by
  obtain ⟨line, inspected, rfl⟩ := (run_eq_shown_iff applies).1 accepted
  obtain ⟨envelope, read, rfl⟩ := inspectJson_eq_ok_iff.1 inspected
  obtain ⟨tx, rfl⟩ : ∃ tx, envelope = .new tx := ⟨_, (Envelope.accepted_of_ofJson read).1⟩
  -- A text this short has no room for a transaction whose bytes could not be read back.
  have chars := Nat.lt_of_le_of_lt (length_toList_le text) short
  have small := Envelope.length_encode_lt chars read
  have triple := (Envelope.accepted_of_ofJson read).2
  have portable : tx.IsPortable := ⟨small, triple⟩
  refine ⟨tx, (Envelope.new tx.normalise).record.1.document, read, ?_,
    fun before hex after front back spells => ?_, fun tail blank => ?_⟩
  · rw [describe_eq]
  · have there := ne_nil_of_spells portable.small spells
    have plain := isOption_of_spells spells there front after
    exact rawShows plain (inspectRaw_spells portable.small spells front back)
  · have again := ofJson_print_indented portable.normalise blank
    have described := inspectJson_eq_ok_iff.2 ⟨_, again, rfl⟩
    rw [describe_normalise] at described
    exact jsonShows described

/-- The record of an annotated deposit in a file, and its bytes as an operand, in capitals without a
marker and with white space around them. -/
theorem command_round_trip_capitals :
    let call : SystemTx := ⟨.zero 32, .zero 20, none, some 0, 7, 21000, true, [1, 2, 3]⟩
    let tx : Transaction := .annotatedDeposit call 5
    let record : Record :=
      { type := 0x7e, nonce := some 5, gas := some 21000, value := some 7, input := some [1, 2, 3],
        sourceHash := some (.zero 32), sender := some (.zero 20), mint := some 0,
        isSystemTx := some true }
    let holding (text : String) : Surroundings :=
      ⟨⟨none, none⟩, [], fun path =>
        if path = "tx.json" then .ok (Bytes.ofText text.toList) else .error noSuchFile⟩
    let capitals := (Hex.digitsOf tx.encode).map Char.toUpper
    run ["json", "tx.json"] (holding record.print) =
        .shown (report .deposit tx.digest tx.encode (some 5) ++ "\n") ∧
      ∃ printed : Json.Document,
        run ["raw", String.ofList ([' '] ++ (capitals ++ ['\n']))] (holding record.print) =
          .shown (String.ofList (printed.print .indented) ++ "\n") ∧
        run ["json", "tx.json"] (holding (String.ofList (printed.print .indented ++ ['\n']))) =
          .shown (report .deposit tx.digest tx.encode none ++ "\n") := by
  intro call tx record holding capitals
  have plain : isOption "tx.json" = false := by decide
  have held (text : String) : (holding text).file "tx.json" = .ok (Bytes.ofText text.toList) := by
    simp [holding]
  have applies (text : String) : Applies .json ["json", "tx.json"] (holding text) text :=
    applies_path plain (by decide) (.file (by decide) (held text))
  have read : Envelope.ofJson record.print = .ok (.new tx) := by
    rw [Envelope.ofJson, record.parse_print]
    rfl
  have accepted : run ["json", "tx.json"] (holding record.print) =
      .shown (report .deposit tx.digest tx.encode (some 5) ++ "\n") := by
    have described := inspectJson_eq_ok_iff.2 ⟨_, read, rfl⟩
    rw [describe_eq] at described
    exact run_of_applies (applies _) described
  have short : record.print.utf8ByteSize < 2 ^ 63 := by
    rw [utf8ByteSize_eq, Record.print, String.toList_ofList]
    decide +kernel
  obtain ⟨tx', printed, read', -, back, again⟩ :=
    command_round_trip (applies record.print) short accepted
  obtain rfl : tx' = tx := by
    rw [read] at read'
    exact (congrArg Envelope.transaction (Except.ok.inj read')).symm
  have spells : Hex.Spells capitals tx.encode := Hex.spells_toUpper tx.encode
  have blank (c : Char) (white : isWhiteSpace c = true) : ∀ c' ∈ [c], isWhiteSpace c' = true :=
    List.forall_mem_singleton.2 white
  exact ⟨accepted, printed, (back _ _ _ (blank ' ' rfl) (blank '\n' rfl) spells).operand _,
    (again ['\n'] (List.forall_mem_singleton.2 rfl)).operand _ _ plain (by decide) (by decide)
      (held _)⟩

end Running

end TxEnvelope.Inspect
