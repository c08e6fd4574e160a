import CircuitCloak.Proofs.Sentences

/-! The text of a listing is cut into the tokens of its sentences: each line by itself, whatever lines
follow. -/

namespace CircuitCloak.Qasm

/-- Marks that are no part of a longer one. -/
def Mark.alone : Mark → Bool
  | .leftParen | .rightParen | .leftBracket | .rightBracket | .leftBrace | .rightBrace
  | .semicolon | .comma | .plus | .arrow => true
  | _ => false

theorem cut_mark (symbol : Mark) (alone : symbol.alone = true) : Cut symbol.text [.mark symbol] := by
  cases symbol <;> first | exact absurd alone (by decide) | exact cut_of_token (by decide) fun _ => rfl

theorem parts_mark (symbol : Mark) : Parts symbol.text := by
  cases symbol <;> exact ⟨_, _, rfl, rfl, by decide⟩

theorem cut_spaced (symbol : Mark) : Cut (" " ++ symbol.text ++ " ") [.mark symbol] := by
  intro rest more falls
  cases symbol <;> exact .gap rfl (by simp [Mark.text]) (.token rfl (by simp) (.gap rfl (by simp) falls))

theorem parts_spaced (symbol : Mark) : Parts (" " ++ symbol.text ++ " ") := parts_space.append.append

theorem word_commas {α : Type} {items : List α} (text : α → String) {tokens : α → List Token}
    (words : ∀ item ∈ items, Word (text item) (tokens item)) :
    Word (", ".intercalate (items.map text)) (commas (items.map tokens)) := by
  induction items with
  | nil => exact Cut.empty.word
  | cons item rest ih =>
    obtain ⟨first, others⟩ := List.forall_mem_cons.mp words
    cases rest with
    | nil =>
      rw [List.map_singleton, List.map_singleton, String.intercalate_singleton, commas, List.intercalate_singleton]
      exact first
    | cons next rest =>
      have comma : Cut ", " [.mark .comma] := (cut_mark .comma rfl).append cut_space
      have joined := (first.close comma ⟨_, _, rfl, rfl, by decide⟩).before (ih others)
      rw [List.map_cons, List.map_cons, String.intercalate_cons_cons]
      rw [commas, List.map_cons, List.map_cons, List.intercalate_cons_cons]
      exact joined

theorem word_operation {left right : String} {tokens more : List Token} (symbol : Mark) (first : Word left tokens)
    (second : Word right more) :
    Word ("(" ++ left ++ (" " ++ symbol.text ++ " ") ++ right ++ ")") (operationTokens symbol tokens more) := by
  have opened := ((cut_mark .leftParen rfl).before first).close (cut_spaced symbol) (parts_spaced symbol)
  exact ((opened.before second).close (cut_mark .rightParen rfl) (parts_mark .rightParen)).word

theorem word_angle {angle : Angle} (sayable : Sayable angle) : Word (angleText angle) (angleTokens angle) := by
  induction angle with
  | const value => exact word_constant value
  | symbol name => exact word_identifier sayable
  | pi => exact word_keyword .pi
  | neg operand ih =>
    have opened : Cut "-(" [.mark .minus, .mark .leftParen] :=
      fun rest more falls => .token rfl (by simp) (.token rfl (by simp) falls)
    exact ((opened.before (ih sayable)).close (cut_mark .rightParen rfl) (parts_mark .rightParen)).word
  | add left right first second => exact word_operation .plus (first sayable.1) (second sayable.2)
  | sub left right first second => exact word_operation .minus (first sayable.1) (second sayable.2)
  | mul left right first second => exact word_operation .star (first sayable.1) (second sayable.2)
  | div left right first second => exact word_operation .slash (first sayable.1) (second sayable.2)

theorem isIdentifier_kindText (dialect : Dialect) (kind : Elementary) : IsIdentifier (kindText dialect kind) := by
  cases kind <;> cases dialect <;> simp only [kindText, Elementary.name] <;> exact Eq.refl _

theorem word_callee (dialect : Dialect) {callee : Callee} (legible : callee.Legible) :
    Word (calleeText dialect callee)
      ([.identifier (calleeName dialect callee)] ++ argumentTokens (calleeAngles callee)) := by
  cases callee with
  | defined name => exact word_identifier legible
  | elementary kind =>
    have name := word_identifier (isIdentifier_kindText dialect kind)
    unfold calleeText
    dsimp only
    split
    next none =>
      rw [calleeAngles, none]
      exact name
    next angles _ =>
      have arguments := word_commas angleText fun angle member => word_angle (legible angle member)
      have opened := (name.close (cut_mark .leftParen rfl) (parts_mark .leftParen)).before arguments
      have closed := (opened.close (cut_mark .rightParen rfl) (parts_mark .rightParen)).word
      have written : argumentTokens kind.angles =
          [.mark .leftParen] ++ commas (kind.angles.map angleTokens) ++ [.mark .rightParen] := by
        unfold argumentTokens
        split
        next none => contradiction
        next => rfl
      rw [calleeAngles, written, ← List.append_assoc, ← List.append_assoc]
      exact closed

theorem cut_call (dialect : Dialect) {call : WrittenCall} (legible : call.callee.Legible) {qubitName : Nat → String}
    {tokens : Nat → List Token} (words : ∀ qubit ∈ call.qubits, Word (qubitName qubit) (tokens qubit)) :
    Cut (callText dialect qubitName call) (callTokens dialect tokens call) := by
  have called := (word_callee dialect legible).close cut_space parts_space
  have whole := (called.before (word_commas qubitName words)).close (cut_mark .semicolon rfl) (parts_mark .semicolon)
  rwa [List.append_nil] at whole

/-- Reserved words are made of letters. -/
theorem ofText?_of_not_letter {name : String} {c : Char} (member : c ∈ name.toList) (other : c.isAlpha = false) :
    Keyword.ofText? name = none := by
  refine List.find?_eq_none.mpr fun word _ same => ?_
  have letters : ∀ c ∈ word.text.toList, c.isAlpha = true := by
    cases word <;> exact List.all_eq_true.mp rfl
  rw [beq_iff_eq] at same
  rw [letters c (same ▸ member)] at other
  cases other

theorem isNamePart_of_mem_toString {value : Nat} : ∀ c ∈ (toString value).toList, isNamePart c = true := by
  intro c member
  simp [isNamePart, Char.isAlphanum, isDigit_of_mem_toString value c member]

theorem exists_digit (value : Nat) : ∃ c ∈ (toString value).toList, c.isDigit = true := by
  obtain ⟨first, tail, same⟩ : ∃ first tail, (toString value).toList = first :: tail :=
    List.exists_cons_of_ne_nil (toList_toString value ▸ Nat.toDigits_ne_nil)
  have member : first ∈ (toString value).toList := same ▸ List.mem_cons_self
  exact ⟨first, member, isDigit_of_mem_toString value first member⟩

theorem isIdentifier_formalText (qubit : Nat) : IsIdentifier (formalText qubit) := by
  have same : (formalText qubit).toList = 'a' :: (toString qubit).toList := String.toList_append
  obtain ⟨c, member, digit⟩ := exists_digit qubit
  refine isIdentifier_of_spelled ⟨⟨_, _, same, rfl⟩, ?_⟩
    (ofText?_of_not_letter (c := c) ?_ (not_isAlpha_of_isDigit digit))
  · rw [same]
    exact List.forall_mem_cons.mpr ⟨rfl, isNamePart_of_mem_toString⟩
  · exact same ▸ List.mem_cons_of_mem _ member

theorem cut_element (register : String) (name : IsIdentifier register) (position : Nat) :
    Cut (register ++ "[" ++ toString position ++ "]") (elementTokens register position) := by
  have opened := ((word_identifier name).close (cut_mark .leftBracket rfl) (parts_mark .leftBracket)).before
    (word_number position)
  exact opened.close (cut_mark .rightBracket rfl) (parts_mark .rightBracket)

theorem cut_qubit (qubit : Nat) : Cut (qubitText qubit) (elementTokens "q" qubit) := cut_element "q" rfl qubit

theorem cut_clbit (clbit : Nat) : Cut (clbitText clbit) (elementTokens "c" clbit) := cut_element "c" rfl clbit

def CutLines (lines : List String) (tokens : List Token) : Prop := Cut (String.join (lines.map (· ++ "\n"))) tokens

namespace CutLines

variable {lines more : List String} {tokens others : List Token}

theorem nil : CutLines [] [] := .empty

theorem cons {line : String} (first : Cut line tokens) (rest : CutLines lines others) :
    CutLines (line :: lines) (tokens ++ others) := by
  have ended := (first.append cut_newline).append rest
  rw [List.append_nil] at ended
  unfold CutLines
  rw [List.map_cons, String.join_cons]
  exact ended

theorem one {line : String} (cut : Cut line tokens) : CutLines [line] tokens := by
  have line := CutLines.cons cut .nil
  rwa [List.append_nil] at line

theorem append (first : CutLines lines tokens) (second : CutLines more others) :
    CutLines (lines ++ more) (tokens ++ others) := by
  unfold CutLines
  rw [List.map_append, String.join_append]
  exact Cut.append first second

theorem flatMap {α : Type} {items : List α} {written : α → List String} {read : α → List Token}
    (cut : ∀ item ∈ items, CutLines (written item) (read item)) :
    CutLines (items.flatMap written) (items.flatMap read) := by
  induction items with
  | nil => exact .nil
  | cons item rest ih =>
    obtain ⟨first, others⟩ := List.forall_mem_cons.mp cut
    exact first.append (ih others)

theorem map {α : Type} {items : List α} {written : α → String} {read : α → List Token}
    (cut : ∀ item ∈ items, Cut (written item) (read item)) : CutLines (items.map written) (items.flatMap read) := by
  rw [List.map_eq_flatMap]
  exact flatMap fun item member => one (cut item member)

theorem paragraph (cut : CutLines lines tokens) : CutLines (Qasm.paragraph lines) tokens := by
  unfold Qasm.paragraph
  split
  · next none =>
    rw [List.isEmpty_iff.mp none] at cut
    exact cut
  · have ended := cut.append (.one .empty)
    rwa [List.append_nil] at ended

end CutLines

theorem cut_definition (name : String) (qubits : List String) (identifier : IsIdentifier name)
    (formals : ∀ qubit ∈ qubits, IsIdentifier qubit) :
    Cut ("gate " ++ name ++ " " ++ ", ".intercalate qubits ++ " \x7b")
      ([.keyword .gate, .identifier name] ++ commas (qubits.map fun qubit => [.identifier qubit]) ++
        [.mark .leftBrace]) := by
  have opened : Cut "gate " [.keyword .gate] := (word_keyword .gate).close cut_space parts_space
  have named := (opened.before (word_identifier identifier)).close cut_space parts_space
  have listed := named.before (word_commas id fun qubit member => word_identifier (formals qubit member))
  have brace : Cut " \x7b" [.mark .leftBrace] := cut_space.append (cut_mark .leftBrace rfl)
  have closed := listed.close brace ⟨_, _, rfl, rfl, by decide⟩
  rwa [List.map_id, List.append_nil] at closed

theorem cut_gate {dialect : Dialect} {gate : WrittenGate} (legible : gate.Legible) :
    CutLines (gate.lines dialect) (gate.sentence dialect).tokens := by
  have formals : ∀ qubit ∈ gate.formals, IsIdentifier qubit := by
    intro qubit member
    obtain ⟨position, _, rfl⟩ := List.mem_map.mp member
    exact isIdentifier_formalText position
  have calls : ∀ call ∈ gate.calls, Cut ("  " ++ callText dialect formalText call) (callTokens dialect formalTokens call) :=
    fun call member => (cut_space.append cut_space).append
      (cut_call dialect (legible.calls call member).callee fun qubit _ => word_identifier (isIdentifier_formalText qubit))
  have first := cut_definition gate.name gate.formals legible.name formals
  have whole := (CutLines.cons first (.map calls)).append (.one (cut_mark .rightBrace rfl))
  have tokens : (gate.sentence dialect).tokens = [.keyword .gate, .identifier gate.name] ++
      commas (gate.formals.map fun qubit => [.identifier qubit]) ++ [.mark .leftBrace] ++
      gate.calls.flatMap (callTokens dialect formalTokens) ++ [.mark .rightBrace] := by
    change _ ++ List.flatMap _ (List.map _ _) ++ _ = _
    rw [List.flatMap_map]
  rw [tokens]
  exact whole

theorem cut_sxdg : Cut "gate sxdg a \x7b h a; sdg a; h a; \x7d" sxdgSentence.tokens := by
  have call : ∀ kind : Elementary, kind.angles = [] →
      Cut (" " ++ callText .qasm3 (fun _ => "a") ⟨.elementary kind, [0]⟩)
        (callTokens .qasm3 (fun _ => [.identifier "a"]) ⟨.elementary kind, [0]⟩) := by
    intro kind none
    have legible : (Callee.elementary kind).Legible := by
      intro angle member
      rw [none] at member
      cases member
    exact cut_space.append (cut_call .qasm3 legible fun _ _ => word_identifier (Eq.refl _))
  have opened := cut_definition "sxdg" ["a"] (Eq.refl _)
    (List.forall_mem_singleton.mpr (Eq.refl _))
  have body := ((call .h rfl).append (call .sdg rfl)).append (call .h rfl)
  have closed : Cut " \x7d" [.mark .rightBrace] := cut_space.append (cut_mark .rightBrace rfl)
  have whole := (opened.append body).append closed
  have text : "gate " ++ "sxdg" ++ " " ++ ", ".intercalate ["a"] ++ " \x7b" ++
      (" " ++ callText .qasm3 (fun _ => "a") ⟨.elementary .h, [0]⟩ ++
        (" " ++ callText .qasm3 (fun _ => "a") ⟨.elementary .sdg, [0]⟩) ++
        (" " ++ callText .qasm3 (fun _ => "a") ⟨.elementary .h, [0]⟩)) ++ " \x7d" =
      "gate sxdg a \x7b h a; sdg a; h a; \x7d" := by decide +kernel
  rw [text] at whole
  exact whole

theorem cut_measure (dialect : Dialect) (qubit clbit : Nat) :
    Cut (measureText dialect qubit clbit) (measureSentence dialect qubit clbit).tokens := by
  have semicolon := cut_mark .semicolon rfl
  cases dialect with
  | qasm2 =>
    have opened : Cut "measure " [.keyword .measure] := (word_keyword .measure).close cut_space parts_space
    have arrow : Cut " -> " [.mark .arrow] := cut_spaced .arrow
    exact (((opened.append (cut_qubit qubit)).append arrow).append (cut_clbit clbit)).append semicolon
  | qasm3 =>
    have measure : Cut "measure " [.keyword .measure] := (word_keyword .measure).close cut_space parts_space
    have equal : Cut " = measure " [.mark .equal, .keyword .measure] := (cut_spaced .equal).append measure
    exact (((cut_clbit clbit).append equal).append (cut_qubit qubit)).append semicolon

theorem cut_reset (qubit : Nat) : Cut ("reset " ++ qubitText qubit ++ ";") (resetSentence qubit).tokens := by
  have opened : Cut "reset " [.keyword .reset] := (word_keyword .reset).close cut_space parts_space
  exact (opened.append (cut_qubit qubit)).append (cut_mark .semicolon rfl)

def sentenceTokens (sentences : List Sentence) : List Token := sentences.flatMap (·.tokens)

theorem cut_measures (dialect : Dialect) (qubits clbits : List Nat) :
    CutLines (List.zipWith (measureText dialect) qubits clbits)
      (sentenceTokens (List.zipWith (measureSentence dialect) qubits clbits)) := by
  rw [← List.map_uncurry_zip_eq_zipWith, ← List.map_uncurry_zip_eq_zipWith, sentenceTokens, List.flatMap_map]
  exact .map fun wire _ => cut_measure dialect wire.1 wire.2

theorem cut_instruction (dialect : Dialect) {instruction : WrittenInstruction} (legible : instruction.Legible) :
    CutLines (instruction.lines dialect) (sentenceTokens (instruction.sentences dialect)) := by
  cases instruction with
  | call written =>
    have line := cut_call dialect legible.1.callee fun qubit _ => (cut_qubit qubit).word
    rw [sentenceTokens, WrittenInstruction.sentences, List.flatMap_singleton]
    exact .one line
  | measure qubits clbits => exact cut_measures dialect qubits clbits
  | reset qubits =>
    rw [sentenceTokens, WrittenInstruction.sentences, List.flatMap_map]
    exact .map fun qubit _ => cut_reset qubit
  | barrier qubits =>
    rw [sentenceTokens, WrittenInstruction.sentences, List.flatMap_singleton]
    cases qubits with
    | nil => exact .one ((word_keyword .barrier).close (cut_mark .semicolon rfl) (parts_mark .semicolon))
    | cons first rest =>
      have opened : Cut "barrier " [.keyword .barrier] := (word_keyword .barrier).close cut_space parts_space
      have listed := opened.before
        (word_commas qubitText fun qubit (_ : qubit ∈ first :: rest) => (cut_qubit qubit).word)
      exact .one (listed.close (cut_mark .semicolon rfl) (parts_mark .semicolon))

theorem cut_closed (text : String) {token : Token} (nonempty : text ≠ "")
    (piece : ∀ rest, Piece.ofText (text.toList ++ ';' :: rest) = .token token text.toList (';' :: rest)) :
    Cut (text ++ ";") [token, .mark .semicolon] := by
  intro rest more falls
  rw [String.toList_append, List.append_assoc]
  refine .token (piece rest) ?_ (.token rfl (by simp) falls)
  have length : 0 < text.toList.length := List.length_pos_iff.mpr (by simpa using nonempty)
  rw [List.length_append, List.length_cons]
  exact Nat.lt_add_of_pos_left length

theorem cut_header (dialect : Dialect) :
    CutLines (headerLines dialect) (headerTokens dialect ++ (includeSentence dialect).tokens) := by
  have header : Cut "OPENQASM " [.keyword .header] := (word_keyword .header).close cut_space parts_space
  have includes : Cut "include " [.keyword .includeFile] := (word_keyword .includeFile).close cut_space parts_space
  have lines : ∀ {version file : String} {tokens more : List Token}, Cut version tokens → Cut file more →
      CutLines ["OPENQASM " ++ version, "include " ++ file, ""]
        ([.keyword .header] ++ tokens ++ ([.keyword .includeFile] ++ more)) := by
    intro version file tokens more first second
    have blank := CutLines.one .empty
    have both := CutLines.cons (header.append first) (.cons (includes.append second) blank)
    rwa [List.append_nil] at both
  cases dialect with
  | qasm2 =>
    have version : Cut "2.0;" [versionToken .qasm2, .mark .semicolon] :=
      cut_closed "2.0" (by decide) fun _ => rfl
    have file : Cut "\"qelib1.inc\";" [.quoted "qelib1.inc", .mark .semicolon] :=
      cut_closed "\"qelib1.inc\"" (by decide) fun _ => rfl
    have text : headerLines .qasm2 = ["OPENQASM " ++ "2.0;", "include " ++ "\"qelib1.inc\";", ""] := by decide +kernel
    rw [text]
    exact lines version file
  | qasm3 =>
    have version : Cut "3.0;" [versionToken .qasm3, .mark .semicolon] :=
      cut_closed "3.0" (by decide) fun _ => rfl
    have file : Cut "\"stdgates.inc\";" [.quoted "stdgates.inc", .mark .semicolon] :=
      cut_closed "\"stdgates.inc\"" (by decide) fun _ => rfl
    have text : headerLines .qasm3 = ["OPENQASM " ++ "3.0;", "include " ++ "\"stdgates.inc\";", ""] := by decide +kernel
    rw [text]
    exact lines version file

theorem CutLines.optional {condition : Prop} [Decidable condition] {line : String} {sentence : Sentence}
    (cut : Cut line sentence.tokens) :
    CutLines (if condition then [line] else []) (sentenceTokens (if condition then [sentence] else [])) := by
  split
  · change CutLines [line] (sentence.tokens ++ [])
    rw [List.append_nil]
    exact .one cut
  · exact .nil

theorem cut_register (dialect : Dialect) (sized typed : Keyword) (name : String) {before middle after : String}
    (identifier : IsIdentifier name) (opening : sized.text ++ " " ++ (name ++ "[") = before)
    (opened : typed.text ++ "[" = middle) (closing : "]" ++ " " ++ (name ++ ";") = after) (size : Nat) :
    Cut (match dialect with
      | .qasm2 => before ++ toString size ++ "];"
      | .qasm3 => middle ++ toString size ++ after) (registerTokens dialect sized typed name size) := by
  have number := word_number size
  have named := word_identifier identifier
  have bracket : ∀ {text tokens}, Word text tokens → Cut (text ++ "[") (tokens ++ [.mark .leftBracket]) :=
    fun word => word.close (cut_mark .leftBracket rfl) (parts_mark .leftBracket)
  cases dialect with
  | qasm2 =>
    have first := ((word_keyword sized).close cut_space parts_space).append (bracket named)
    have last : Cut "];" [.mark .rightBracket, .mark .semicolon] :=
      (cut_mark .rightBracket rfl).append (cut_mark .semicolon rfl)
    rw [opening] at first
    exact (first.before number).close last ⟨_, _, rfl, rfl, by decide⟩
  | qasm3 =>
    have first := bracket (word_keyword typed)
    have last := ((cut_mark .rightBracket rfl).append cut_space).append
      (named.close (cut_mark .semicolon rfl) (parts_mark .semicolon))
    rw [opened] at first
    have starts : Parts after := closing ▸ ((parts_mark .rightBracket).append).append
    exact (first.before number).close (closing ▸ last) starts

theorem cut_registers (dialect : Dialect) (listing : Listing) :
    CutLines (listing.registerLines dialect) (sentenceTokens (listing.registers dialect)) := by
  have quantum := cut_register dialect .qreg .qubit "q" (Eq.refl _) rfl rfl rfl listing.numQubits
  have classical := cut_register dialect .creg .bit "c" (Eq.refl _) rfl rfl rfl listing.numClbits
  rw [Listing.registers, sentenceTokens, List.flatMap_append]
  exact (CutLines.optional quantum).append (CutLines.optional classical)

theorem cut_definitions (dialect : Dialect) {listing : Listing} (legible : ∀ gate ∈ listing.gates, gate.Legible) :
    CutLines ((if listing.needsSxdg dialect then ["gate sxdg a \x7b h a; sdg a; h a; \x7d"] else []) ++
      listing.gates.flatMap (·.lines dialect)) (sentenceTokens (listing.definitions dialect)) := by
  rw [Listing.definitions, sentenceTokens, List.flatMap_append, List.flatMap_map]
  exact (CutLines.optional cut_sxdg).append (.flatMap fun gate member => cut_gate (legible gate member))

theorem cut_listing (dialect : Dialect) {listing : Listing} (sayable : listing.Sayable) :
    CutLines (listing.lines dialect) (headerTokens dialect ++ sentenceTokens (listing.sentences dialect)) := by
  have body := CutLines.flatMap fun instruction member => cut_instruction dialect (sayable.body instruction member)
  have whole := (((cut_header dialect).append (cut_definitions dialect sayable.gates).paragraph).append
    (cut_registers dialect listing).paragraph).append body
  have order : headerTokens dialect ++ sentenceTokens (listing.sentences dialect) =
      headerTokens dialect ++ (includeSentence dialect).tokens ++ sentenceTokens (listing.definitions dialect) ++
        sentenceTokens (listing.registers dialect) ++
          listing.body.flatMap fun instruction => sentenceTokens (instruction.sentences dialect) := by
    simp only [Listing.sentences, sentenceTokens, List.flatMap_append, List.flatMap_singleton, List.flatMap_assoc,
      List.append_assoc]
  rw [order]
  exact whole

/-- The text of a circuit falls into the tokens of its listing. -/
theorem falls_write (dialect : Dialect) {circuit : Circuit} (sayable : (Listing.ofCircuit circuit).Sayable) :
    Falls (write dialect circuit).toList
      (headerTokens dialect ++ sentenceTokens ((Listing.ofCircuit circuit).sentences dialect)) := by
  have whole := cut_listing dialect sayable [] [] .done
  rwa [List.append_nil, List.append_nil] at whole

end CircuitCloak.Qasm
