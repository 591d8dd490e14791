import KernelWeaver.Proofs.Printing.PlainText
import KernelWeaver.Proofs.Snippet.Rescan
import KernelWeaver.Proofs.Snippet.Respelling

/-!
# Reading printed expressions

The plain text of an expression is read as tokens that spell the expression with its casts written
as their types are printed.
-/

namespace KernelWeaver.Printing

open Code Snippet Snippet.Lexer Typing

variable {aliases : Aliases} {types : NodeTypes}

/-! ### Names in calls -/

theorem occursIn_cons_of_not_mem {c : Char} {part cs : List Char} (h : c ∉ cs) :
    Text.occursIn (c :: part) cs = false := by
  induction cs with
  | nil => rfl
  | cons d cs ih =>
      obtain ⟨hne, hnot⟩ := not_or.mp (mt List.mem_cons.mpr h)
      rw [Text.occursIn, ih hnot, Bool.or_false, List.isPrefixOf_cons_cons]
      simp [hne]

/-- A name in front of arguments stands for a function. -/
theorem callText_of_isWord {name : String} (h : IsWord name.toList) (args : List String) :
    callText name args = name ++ "(" ++ Text.join ", " args ++ ")" := by
  have hnot : ∀ c, Text.isAsciiWord c = false → c ∉ name.toList := by
    intro c hc hmem
    rw [h.chars c hmem] at hc
    cases hc
  have hslots : hasSlots name = false := occursIn_cons_of_not_mem (hnot '$' (by decide))
  have hopen : name.startsWith "\x7b" = false := by
    rw [← Bool.not_eq_true, String.startsWith_string_iff]
    exact fun hbegins => hnot '\x7b' (by decide) (hbegins.subset (by decide))
  have hclose : name.endsWith ")" = false := by
    rw [← Bool.not_eq_true, ← String.endsWith_toSlice, String.Slice.endsWith_string_iff]
    intro hsuffix
    rw [String.copy_toSlice] at hsuffix
    exact hnot ')' (by decide) (hsuffix.subset (by decide))
  rw [callText, hslots, hopen, hclose, Bool.or_false, Bool.and_false]
  simp only [Bool.false_eq_true, if_false]

/-! ### Types in casts -/

/-- The words of the type, `const` among them. -/
def typeWords (n : Numeric) (isConst : Bool) : List String :=
  (if isConst then ["const"] else []) ++ match n with
    | .bool => ["bool"]
    | .int8 => ["char"]
    | .uint8 => ["unsigned", "char"]
    | .int16 => ["short"]
    | .uint16 => ["unsigned", "short"]
    | .int32 => ["int"]
    | .uint32 => ["unsigned", "int"]
    | .float => ["float"]
    | .double => ["double"]

/-- The type that the spelling of a number or of a pointer to one is read as. -/
def typeSpec : CType → TypeSpec
  | .value n c =>
    { words := (typeWords n c).filter (· ≠ "const"), isConst := (typeWords n c).contains "const",
      pointer := none, span := default }
  | .pointer (.value n c) d =>
    { words := (typeWords n c).filter (· ≠ "const"), isConst := (typeWords n c).contains "const",
      pointer := some ⟨d⟩, span := default }
  | _ => default

/-- A number or a pointer to one: the types that casts can have. -/
inductive IsCastType : CType → Prop where
  | value {n : Numeric} {c : Bool} : IsCastType (.value n c)
  | pointer {n : Numeric} {c d : Bool} : IsCastType (.pointer (.value n c) d)

/-- A word that a type is spelled with. -/
def isTypeWord (word : String) : Bool := word = "const" || TokenKind.specifiers.contains word

theorem toList_name_value (n : Numeric) (c : Bool) :
    (CType.value n c).name.toList = List.intercalate [' '] ((typeWords n c).map String.toList) := by
  cases n <;> cases c <;> rfl

theorem isTypeWord_of_mem {n : Numeric} {c : Bool} {word : String} (h : word ∈ typeWords n c) :
    isTypeWord word = true := by
  revert word
  cases n <;> cases c <;> decide

/-- The kind of a word that a type is spelled with. -/
def typeWordKind (word : String) : TokenKind :=
  if word = "const" then .typeQualifier else .typeSpecifier

theorem isText_of_isTypeWord {word : String} (h : isTypeWord word = true) :
    IsText aliases (typeWordKind word) word.toList := by
  have hmem : word ∈ "const" :: TokenKind.specifiers := by
    simpa [isTypeWord] using h
  have hwords : ∀ w ∈ "const" :: TokenKind.specifiers,
      (w.toList.head?.any isNameStart = true ∧ w.toList.all Text.isAsciiWord = true) ∧
        TokenKind.ofWord? w = some (typeWordKind w) := by
    decide
  obtain ⟨⟨hstart, hall⟩, hkind⟩ := hwords word hmem
  exact isText_of_ofWord? aliases (isWord_of_all hstart hall) hkind

/-- Tokens that are the words, each of the kind that it has in a type. -/
structure AreTypeWords (words : List String) (ts : List Token) : Prop where
  lexemes : ts.map Token.lexeme = words
  kinds : ∀ t ∈ ts, t.kind = typeWordKind t.lexeme

theorem readsAs_typeWords {words : List String} (hne : words ≠ [])
    (hwords : ∀ word ∈ words, isTypeWord word = true) :
    ReadsAs aliases (List.intercalate [' '] (words.map String.toList)) (AreTypeWords words) := by
  induction words with
  | nil => exact absurd rfl hne
  | cons word words ih =>
      rw [List.forall_mem_cons] at hwords
      have hword : ReadsAs aliases word.toList (AreTypeWords [word]) :=
        readsAs_text (isText_of_isTypeWord hwords.1) fun t hkind htext => by
          rw [String.ofList_toList] at htext
          exact ⟨by simp [htext], by simp [hkind, htext]⟩
      cases words with
      | nil => simpa [List.intercalate] using hword
      | cons next words =>
          have hmore := ih (List.cons_ne_nil _ _) hwords.2
          have hsplit : List.intercalate [' '] ((word :: next :: words).map String.toList) =
              word.toList ++ ' ' :: List.intercalate [' '] ((next :: words).map String.toList) := by
            simp [List.intercalate]
          rw [hsplit]
          refine (hword.append hmore.blank (lacks_cons.mpr rfl)).imp ?_
          rintro ts ⟨us, vs, rfl, hus, hvs⟩
          refine ⟨by rw [List.map_append, hus.lexemes, hvs.lexemes]; rfl, ?_⟩
          exact List.forall_mem_append.mpr ⟨hus.kinds, hvs.kinds⟩

/-- The name of a type that is no pointer is read as the words of the type. -/
theorem readsAs_name_value (n : Numeric) (c : Bool) :
    ReadsAs aliases (CType.value n c).name.toList (AreTypeWords (typeWords n c)) := by
  rw [toList_name_value]
  refine readsAs_typeWords ?_ fun word hword => isTypeWord_of_mem hword
  cases n <;> cases c <;> decide

theorem AreTypeWords.spellsSpecifiers {n : Numeric} {c : Bool} {ts : List Token}
    {type : TypeSpec} (h : AreTypeWords (typeWords n c) ts)
    (hwords : type.words = (typeWords n c).filter (· ≠ "const"))
    (hconst : type.isConst = (typeWords n c).contains "const") : SpellsSpecifiers type ts where
  kinds t ht := by
    rw [h.kinds t ht, typeWordKind]
    split <;> rfl
  words := by
    rw [hwords, ← h.lexemes, List.filter_map]
    congr 1
    refine List.filter_congr fun t ht => ?_
    rw [h.kinds t ht, typeWordKind, Function.comp_apply]
    by_cases hword : t.lexeme = "const" <;> simp [hword]
  words_ne_nil := by
    rw [hwords]
    cases n <;> cases c <;> decide
  isConst := by
    rw [hconst, ← h.lexemes, Bool.eq_iff_iff, List.contains_iff_mem, List.any_eq_true,
      List.mem_map]
    refine exists_congr fun t => and_congr_right fun ht => ?_
    rw [h.kinds t ht, typeWordKind]
    by_cases hword : t.lexeme = "const" <;> simp [hword]

/-- A word with a meaning of its own is read as a token of its kind. -/
theorem readsAs_keyword {word : String} {kind : TokenKind} (hword : IsWord word.toList)
    (hkind : TokenKind.ofWord? word = some kind) :
    ReadsAs aliases word.toList fun ts => ∃ t, ts = [t] ∧ t.kind = kind :=
  readsAs_text (isText_of_ofWord? aliases hword hkind) fun t ht _ => ⟨t, rfl, ht⟩

theorem readsAs_const :
    ReadsAs aliases "const".toList fun ts => ∃ t, ts = [t] ∧ t.kind = .typeQualifier :=
  readsAs_keyword (isWord_of_all (by decide) (by decide)) rfl

/-- Tokens that spell a type, in front of others of a property. -/
def SpellsTypeBefore (type : TypeSpec) (P : List Token → Prop) (ts : List Token) : Prop :=
  ∃ ss ps us, ts = ss ++ ps ++ us ∧ SpellsSpecifiers type ss ∧ SpellsPointer type.pointer ps ∧ P us

/-- The name of a type is read as its specification, in front of the parenthesis that closes the
cast. -/
theorem readsAs_typeName {t : CType} (h : IsCastType t) {text : List Char}
    {P : List Token → Prop} (hbehind : ReadsAs aliases (')' :: text) P) :
    ReadsAs aliases (t.name.toList ++ ')' :: text) (SpellsTypeBefore (typeSpec t) P) := by
  have hstar : ("*", TokenKind.star) ∈ TokenKind.symbols := by decide
  cases h with
  | @value n c =>
      refine ((readsAs_name_value n c).append hbehind (lacks_cons.mpr rfl)).imp ?_
      rintro ts ⟨ss, us, rfl, hss, hus⟩
      exact ⟨ss, [], us, by simp, hss.spellsSpecifiers rfl rfl, .none, hus⟩
  | @pointer n c d =>
      cases d with
      | false =>
          have hmark := hbehind.behind_symbol hstar (List.cons_ne_nil _ _)
            (lacks_cons.mpr (by decide))
          have htext : (CType.pointer (.value n c) false).name.toList ++ ')' :: text =
              (CType.value n c).name.toList ++ ("*".toList ++ ')' :: text) := by
            simp [CType.name]
          rw [htext]
          refine ((readsAs_name_value n c).append hmark (lacks_cons.mpr rfl)).imp ?_
          rintro ts ⟨ss, _, rfl, hss, star, us, rfl, hstar, hus⟩
          exact ⟨ss, [star], us, by simp, hss.spellsSpecifiers rfl rfl, .plain hstar, hus⟩
      | true =>
          have hmark := (readsAs_const.append hbehind (lacks_cons.mpr rfl)).blank.behind_symbol
            hstar (List.cons_ne_nil _ _) (lacks_cons.mpr (by decide))
          have htext : (CType.pointer (.value n c) true).name.toList ++ ')' :: text =
              (CType.value n c).name.toList ++
                ("*".toList ++ ' ' :: ("const".toList ++ ')' :: text)) := by
            simp [CType.name]
          rw [htext]
          refine ((readsAs_name_value n c).append hmark (lacks_cons.mpr rfl)).imp ?_
          rintro ts ⟨ss, _, rfl, hss, star, _, rfl, hstar, _, us, rfl, ⟨qualifier, rfl, hconst⟩,
            hus⟩
          exact ⟨ss, [star, qualifier], us, by simp, hss.spellsSpecifiers rfl rfl,
            .const hstar hconst, hus⟩

/-! ### Operators -/

open KernelWeaver.Snippet.Parser (binaryOp? assignOp? unaryOp? stepOp?)

theorem mem_symbols_of_binaryOp? {kind : TokenKind} {op : BinaryOp}
    (h : binaryOp? kind = some op) : (op.spelling, kind) ∈ TokenKind.symbols := by
  cases kind <;> cases h <;> decide

theorem mem_symbols_of_assignOp? {kind : TokenKind} {op : AssignOp}
    (h : assignOp? kind = some op) : (op.spelling, kind) ∈ TokenKind.symbols := by
  cases kind <;> cases h <;> decide

theorem mem_symbols_of_unaryOp? {kind : TokenKind} {op : UnaryOp}
    (h : unaryOp? kind = some op) : (op.spelling, kind) ∈ TokenKind.symbols := by
  cases kind <;> cases h <;> decide

theorem mem_symbols_of_stepOp? {kind : TokenKind} {op : StepOp}
    (h : stepOp? kind = some op) : (op.spelling, kind) ∈ TokenKind.symbols := by
  cases kind <;> cases h <;> decide

theorem joins_step (op : StepOp) (c : Char) : joins op.spelling c = false := by
  cases op <;> rfl

/-- The operators that make another operator when they are written twice. -/
def doubles : UnaryOp → Bool
  | .plus | .minus | .addressOf => true
  | .not | .complement | .deref => false

/-- An operator before an operand is read together with `=` and perhaps with itself. -/
theorem joins_unary {op : UnaryOp} {c : Char} (h : joins op.spelling c = true) :
    c = '=' ∨ (doubles op = true ∧ op.spelling.toList = [c]) := by
  cases op <;> simp [joins, TokenKind.symbols, UnaryOp.spelling] at h
  case plus | minus | addressOf =>
    rcases h with rfl | rfl
    · exact .inr ⟨rfl, rfl⟩
    · exact .inl rfl
  case not | deref => exact .inl h

/-! ### Expressions -/

/-- What is asked of the parts of an expression so that its text can be read back. -/
structure Readable (types : NodeTypes) (parts : List Expr) : Prop where
  callees : Expr.CallsNames parts
  /-- Two signs in a row would be a step. -/
  signs : ∀ node op operand, .unary node op operand ∈ parts → op = .plus ∨ op = .minus →
    ¬ op.spelling.toList <+: (plainText types operand).toList
  /-- Two marks of addresses in a row would be another operator. -/
  addresses : ∀ node operand, .unary node .addressOf operand ∈ parts →
    operand.isAssignable = true ∨ ¬ ['&'] <+: (plainText types operand).toList
  casts : ∀ node type operand, .cast node type operand ∈ parts →
    ∃ t, types.find? node.id = some t ∧ IsCastType t

theorem Readable.of_subset {parts more : List Expr} (h : Readable types more)
    (hsubset : parts ⊆ more) : Readable types parts where
  callees node callee args hmem := h.callees node callee args (hsubset hmem)
  signs node op operand hmem := h.signs node op operand (hsubset hmem)
  addresses node operand hmem := h.addresses node operand (hsubset hmem)
  casts node type operand hmem := h.casts node type operand (hsubset hmem)

theorem Readable.tail {e : Expr} {parts : List Expr} (h : Readable types (e :: parts)) :
    Readable types parts := h.of_subset (List.subset_cons_self e parts)

theorem Readable.left {parts more : List Expr} (h : Readable types (parts ++ more)) :
    Readable types parts := h.of_subset (List.subset_append_left parts more)

theorem Readable.right {parts more : List Expr} (h : Readable types (parts ++ more)) :
    Readable types more := h.of_subset (List.subset_append_right parts more)

/-- How the type of a cast is spelled in the text of the cast. -/
def castSpelling (types : NodeTypes) (id : NodeId) : TypeSpec :=
  ((types.find? id).map typeSpec).getD default

theorem castSpelling_of_find? {types : NodeTypes} {id : NodeId} {t : CType}
    (h : types.find? id = some t) : castSpelling types id = typeSpec t := by
  rw [castSpelling, h]
  rfl

/-- The text begins with a character of one property and is read as tokens of another. -/
structure Legible (aliases : Aliases) (first : Char → Prop) (text : String)
    (P : List Token → Prop) : Prop where
  starts : ∃ c more, text.toList = c :: more ∧ first c
  reads : ReadsAs aliases text.toList P

/-- What the text of an expression of the level may begin with: never with `=`, and an operand only
with `&` if its address is taken. -/
def MayBegin (e : Expr) (c : Char) : Level → Prop
  | .primary | .suffixed => c ≠ '=' ∧ c ≠ '&'
  | .unary => c ≠ '=' ∧ (c = '&' → ∃ node inner, e = .unary node .addressOf inner)
  | .binary _ | .conditional | .assignment => c ≠ '='

/-- The texts of arguments between commas. -/
def argumentsText (types : NodeTypes) (args : List Expr) : String :=
  Text.join ", " (plainTexts types args)

/-- The text of a phrase is read as tokens that spell the phrase, but for the types in casts. -/
def ReadsBack (aliases : Aliases) (types : NodeTypes) : Phrase → Prop
  | .expr level e => Readable types e.parts →
      Legible aliases (MayBegin e · level) (plainText types e)
        (Derives Anywhere (.expr level (e.respell (castSpelling types))))
  | .arguments es => Readable types (Expr.partsOfAll es) →
      ReadsAs aliases (argumentsText types es).toList
        (Derives Anywhere (.arguments (Expr.respellAll (castSpelling types) es)))

namespace Legible

variable {first second : Char → Prop} {text : String} {P Q : List Token → Prop}

theorem imp (h : Legible aliases first text P) (hfirst : ∀ c, first c → second c)
    (hPQ : ∀ ts, P ts → Q ts) : Legible aliases second text Q := by
  obtain ⟨c, more, htext, hc⟩ := h.starts
  exact ⟨⟨c, more, htext, hfirst c hc⟩, h.reads.imp hPQ⟩

theorem ne_nil (h : Legible aliases first text P) : text.toList ≠ [] := by
  obtain ⟨c, more, htext, -⟩ := h.starts
  rw [htext]
  exact List.cons_ne_nil _ _

/-- What a text begins with does not depend on what stands behind it. -/
theorem starts_append (h : Legible aliases first text P) (more : List Char) :
    ∃ c cs, text.toList ++ more = c :: cs ∧ first c := by
  obtain ⟨c, cs, htext, hc⟩ := h.starts
  exact ⟨c, cs ++ more, by rw [htext]; rfl, hc⟩

/-- The token itself is read from its text, where it is no symbol. -/
theorem token {t : Token} (h : t.Formed aliases)
    (hkind : t.kind ∉ TokenKind.symbols.map Prod.snd)
    (hP : ∀ u : Token, u.kind = t.kind → u.lexeme = t.lexeme → P [u]) :
    Legible aliases (fun c => c ≠ '=' ∧ c ≠ '&') t.lexeme P := by
  have htext := h.resolve_left hkind
  refine ⟨htext.starts, readsAs_text htext fun u hu hlexeme => hP u hu ?_⟩
  rw [hlexeme, String.ofList_toList]

end Legible

/-- A text between two symbols that are read together with nothing. -/
theorem readsAs_enclosed {text : List Char} {P : List Token → Prop} {open_ close : String}
    {openKind closeKind : TokenKind} (h : ReadsAs aliases text P)
    (hopen : (open_, openKind) ∈ TokenKind.symbols)
    (hclose : (close, closeKind) ∈ TokenKind.symbols)
    (hopens : ∀ c, joins open_ c = false) (hcloses : ∀ c, joins close c = false)
    (hends : Ends close.toList) (hne : close.toList ≠ []) :
    ReadsAs aliases (open_.toList ++ (text ++ close.toList)) fun ts =>
      ∃ left us right, ts = left :: us ++ [right] ∧ left.kind = openKind ∧ P us ∧
        right.kind = closeKind := by
  have hright := h.append (readsAs_symbol hclose hcloses) hends
  refine (hright.behind_symbol hopen (by simp [hne]) fun c _ => hopens c).imp ?_
  rintro ts ⟨left, _, rfl, hleft, us, _, rfl, hus, right, rfl, hright⟩
  exact ⟨left, us, right, rfl, hleft, hus, hright⟩

/-- Tokens of a property between two tokens of the given kinds. -/
def Enclosed (openKind closeKind : TokenKind) (P : List Token → Prop) (ts : List Token) : Prop :=
  ∃ left us right, ts = left :: us ++ [right] ∧ left.kind = openKind ∧ P us ∧
    right.kind = closeKind

theorem readsAs_parentheses {text : List Char} {P : List Token → Prop}
    (h : ReadsAs aliases text P) :
    ReadsAs aliases ('(' :: (text ++ [')'])) (Enclosed .leftParen .rightParen P) := by
  have hopen : ("(", TokenKind.leftParen) ∈ TokenKind.symbols := by decide
  have hclose : (")", TokenKind.rightParen) ∈ TokenKind.symbols := by decide
  exact readsAs_enclosed h hopen hclose (fun _ => rfl) (fun _ => rfl) (lacks_cons.mpr rfl)
    (by decide)

theorem readsAs_brackets {text : List Char} {P : List Token → Prop}
    (h : ReadsAs aliases text P) :
    ReadsAs aliases ('[' :: (text ++ [']'])) (Enclosed .leftBracket .rightBracket P) := by
  have hopen : ("[", TokenKind.leftBracket) ∈ TokenKind.symbols := by decide
  have hclose : ("]", TokenKind.rightBracket) ∈ TokenKind.symbols := by decide
  exact readsAs_enclosed h hopen hclose (fun _ => rfl) (fun _ => rfl) (lacks_cons.mpr rfl)
    (by decide)

theorem legible_keyword {word : String} {kind : TokenKind} {P : List Token → Prop}
    (hword : IsWord word.toList) (hkind : TokenKind.ofWord? word = some kind)
    (hP : ∀ t : Token, t.kind = kind → P [t]) :
    Legible aliases (fun c => c ≠ '=' ∧ c ≠ '&') word P :=
  have htext := isText_of_ofWord? aliases hword hkind
  ⟨htext.starts, readsAs_text htext fun t ht _ => hP t ht⟩

theorem exists_name_of_derives {Place : Span → List Token → Prop} {ts : List Token} {node : Node}
    {name : String} (h : Derives Place (.expr .suffixed (.name node name)) ts) :
    ∃ t, ts = [t] ∧ t.kind = .identifier ∧ t.lexeme = name := by
  cases h with
  | ofPrimary h =>
      cases h with
      | name hkind _ => exact ⟨_, rfl, hkind, rfl⟩

/-- The text of a name is a word. -/
theorem isWord_of_identifier {t : Token} (h : t.Formed aliases) (hkind : t.kind = .identifier) :
    IsWord t.lexeme.toList := by
  have htext := h.resolve_left (by rw [hkind]; decide)
  generalize t.lexeme.toList = text, t.kind = kind at htext hkind
  cases htext with
  | word hword => exact hword
  | number => cases hkind
  | string => cases hkind

/-! ### The text of a node -/

section Nodes

variable {first second third : Char → Prop} {P Q R : List Token → Prop} {node : Node}
  {e array index target left right : Expr} {args : List Expr}

theorem legible_group (h : Legible aliases first (plainText types e) P) :
    Legible aliases (· = '(') (plainText types (.group node e))
      (Enclosed .leftParen .rightParen P) := by
  have htext : (plainText types (.group node e)).toList =
      '(' :: ((plainText types e).toList ++ [')']) := by
    simp [plainText]
  refine ⟨⟨'(', _, htext, rfl⟩, ?_⟩
  rw [htext]
  exact readsAs_parentheses h.reads

theorem legible_subscript (harray : Legible aliases first (plainText types array) P)
    (hindex : Legible aliases second (plainText types index) Q) :
    Legible aliases first (plainText types (.subscript node array index)) fun ts =>
      ∃ us vs, ts = us ++ vs ∧ P us ∧ Enclosed .leftBracket .rightBracket Q vs := by
  have htext : (plainText types (.subscript node array index)).toList =
      (plainText types array).toList ++ '[' :: ((plainText types index).toList ++ [']']) := by
    simp [plainText]
  refine ⟨by rw [htext]; exact harray.starts_append _, ?_⟩
  rw [htext]
  exact harray.reads.append (readsAs_brackets hindex.reads) (lacks_cons.mpr rfl)

/-- A call of a name. -/
theorem legible_call {calleeNode : Node} {name : String} (hword : IsWord name.toList)
    (hname : Legible aliases first name P)
    (hargs : ReadsAs aliases (argumentsText types args).toList Q) :
    Legible aliases first (plainText types (.call node (.name calleeNode name) args)) fun ts =>
      ∃ us vs, ts = us ++ vs ∧ P us ∧ Enclosed .leftParen .rightParen Q vs := by
  have htext : (plainText types (.call node (.name calleeNode name) args)).toList =
      name.toList ++ '(' :: ((argumentsText types args).toList ++ [')']) := by
    change (callText name (plainTexts types args)).toList = _
    rw [callText_of_isWord hword]
    simp [argumentsText]
  refine ⟨by rw [htext]; exact hname.starts_append _, ?_⟩
  rw [htext]
  exact hname.reads.append (readsAs_parentheses hargs) (lacks_cons.mpr rfl)

theorem legible_stepAfter {op : StepOp} {kind : TokenKind} (hop : stepOp? kind = some op)
    (h : Legible aliases first (plainText types target) P) :
    Legible aliases first (plainText types (.stepAfter node op target)) fun ts =>
      ∃ us t, ts = us ++ [t] ∧ P us ∧ t.kind = kind := by
  have htext : (plainText types (.stepAfter node op target)).toList =
      (plainText types target).toList ++ op.spelling.toList := by
    simp [plainText]
  have hends : Ends op.spelling.toList := by
    cases op <;> exact lacks_cons.mpr rfl
  refine ⟨by rw [htext]; exact h.starts_append _, ?_⟩
  rw [htext]
  refine (h.reads.append (readsAs_symbol (mem_symbols_of_stepOp? hop) (joins_step op)) hends).imp ?_
  rintro _ ⟨us, _, rfl, hus, t, rfl, hkind⟩
  exact ⟨us, t, rfl, hus, hkind⟩

theorem legible_stepBefore {op : StepOp} {kind : TokenKind} (hop : stepOp? kind = some op)
    (h : Legible aliases first (plainText types target) P) :
    Legible aliases (fun c => c = '+' ∨ c = '-') (plainText types (.stepBefore node op target))
      fun ts => ∃ t us, ts = t :: us ∧ t.kind = kind ∧ P us := by
  have htext : (plainText types (.stepBefore node op target)).toList =
      op.spelling.toList ++ (plainText types target).toList := by
    simp [plainText]
  refine ⟨?_, ?_⟩
  · rw [htext]
    cases op
    · exact ⟨'+', _, rfl, .inl rfl⟩
    · exact ⟨'-', _, rfl, .inr rfl⟩
  · rw [htext]
    exact h.reads.behind_symbol (mem_symbols_of_stepOp? hop) h.ne_nil fun c _ => joins_step op c

/-- An operator before an operand that it is not read together with. -/
theorem legible_unary {op : UnaryOp} {kind : TokenKind} (hop : unaryOp? kind = some op)
    (h : Legible aliases first (plainText types e) P)
    (hjoins : ∀ c, first c → [c] <+: (plainText types e).toList → joins op.spelling c = false) :
    Legible aliases (op.spelling.toList = [·]) (plainText types (.unary node op e)) fun ts =>
      ∃ t us, ts = t :: us ∧ t.kind = kind ∧ P us := by
  have htext : (plainText types (.unary node op e)).toList =
      op.spelling.toList ++ (plainText types e).toList := by
    simp [plainText]
  have hlacks : Lacks (joins op.spelling) (plainText types e).toList := by
    obtain ⟨c, more, hstart, hc⟩ := h.starts
    rw [hstart, lacks_cons]
    exact hjoins c hc (by rw [hstart]; exact ⟨more, rfl⟩)
  refine ⟨?_, ?_⟩
  · rw [htext]
    cases op <;> exact ⟨_, _, rfl, rfl⟩
  · rw [htext]
    exact h.reads.behind_symbol (mem_symbols_of_unaryOp? hop) h.ne_nil hlacks

theorem legible_cast {type : TypeSpec} {t : CType} (ht : types.find? node.id = some t)
    (hcast : IsCastType t) (h : Legible aliases first (plainText types e) P) :
    Legible aliases (· = '(') (plainText types (.cast node type e)) fun ts =>
      ∃ left us, ts = left :: us ∧ left.kind = .leftParen ∧
        SpellsTypeBefore (typeSpec t)
          (fun vs => ∃ right ws, vs = right :: ws ∧ right.kind = .rightParen ∧ P ws) us := by
  have htext : (plainText types (.cast node type e)).toList =
      "(".toList ++ (t.name.toList ++ ')' :: (plainText types e).toList) := by
    simp [plainText, ht]
  have hclose : (")", TokenKind.rightParen) ∈ TokenKind.symbols := by decide
  have hopen : ("(", TokenKind.leftParen) ∈ TokenKind.symbols := by decide
  have hbehind := h.reads.behind_symbol hclose h.ne_nil fun _ _ => rfl
  refine ⟨⟨'(', _, htext, rfl⟩, ?_⟩
  rw [htext]
  exact (readsAs_typeName hcast hbehind).behind_symbol hopen (by simp) fun _ _ => rfl

/-- Two operands with an operator between them. -/
theorem legible_spaced {spelling : String} {kind : TokenKind}
    (hsymbol : (spelling, kind) ∈ TokenKind.symbols)
    (hleft : Legible aliases first (plainText types left) P)
    (hright : Legible aliases second (plainText types right) Q) :
    Legible aliases first
      (plainText types left ++ " " ++ spelling ++ " " ++ plainText types right)
      fun ts => ∃ us t vs, ts = us ++ t :: vs ∧ P us ∧ t.kind = kind ∧ Q vs := by
  have htext : (plainText types left ++ " " ++ spelling ++ " " ++ plainText types right).toList =
      (plainText types left).toList ++
        ' ' :: (spelling.toList ++ ' ' :: (plainText types right).toList) := by
    simp
  refine ⟨by rw [htext]; exact hleft.starts_append _, ?_⟩
  rw [htext]
  exact hleft.reads.spaced hsymbol hright.reads

theorem legible_conditional {condition yes no : Expr}
    (hcondition : Legible aliases first (plainText types condition) P)
    (hyes : Legible aliases second (plainText types yes) Q)
    (hno : Legible aliases third (plainText types no) R) :
    Legible aliases first (plainText types (.conditional node condition yes no)) fun ts =>
      ∃ us question vs colon ws, ts = us ++ question :: vs ++ colon :: ws ∧ P us ∧
        question.kind = .question ∧ Q vs ∧ colon.kind = .colon ∧ R ws := by
  have hquestion : ("?", TokenKind.question) ∈ TokenKind.symbols := by decide
  have hcolon : (":", TokenKind.colon) ∈ TokenKind.symbols := by decide
  have htext : (plainText types (.conditional node condition yes no)).toList =
      ((plainText types condition).toList ++
        ' ' :: ("?".toList ++ ' ' :: (plainText types yes).toList)) ++
        ' ' :: (":".toList ++ ' ' :: (plainText types no).toList) := by
    simp [plainText]
  refine ⟨by rw [htext, List.append_assoc]; exact hcondition.starts_append _, ?_⟩
  rw [htext]
  refine ((hcondition.reads.spaced hquestion hyes.reads).spaced hcolon hno.reads).imp ?_
  rintro _ ⟨_, colon, ws, rfl, ⟨us, question, vs, rfl, hus, hq, hvs⟩, hc, hws⟩
  exact ⟨us, question, vs, colon, ws, rfl, hus, hq, hvs, hc, hws⟩

/-- An argument in front of others. -/
theorem readsAs_arguments (hne : args ≠ []) (h : Legible aliases first (plainText types e) P)
    (hmore : ReadsAs aliases (argumentsText types args).toList Q) :
    ReadsAs aliases (argumentsText types (e :: args)).toList fun ts =>
      ∃ us comma vs, ts = us ++ comma :: vs ∧ P us ∧ comma.kind = .comma ∧ Q vs := by
  have hcomma : (",", TokenKind.comma) ∈ TokenKind.symbols := by decide
  have htext : (argumentsText types (e :: args)).toList = (plainText types e).toList ++
      (",".toList ++ ' ' :: (argumentsText types args).toList) := by
    cases args with
    | nil => exact absurd rfl hne
    | cons next args => simp [argumentsText, plainTexts, Text.join]
  have hright := hmore.blank.behind_symbol hcomma (List.cons_ne_nil _ _)
    (lacks_cons.mpr (joins_blank hcomma))
  rw [htext]
  refine (h.reads.append hright (lacks_cons.mpr rfl)).imp ?_
  rintro _ ⟨us, _, rfl, hus, comma, vs, rfl, hkind, hvs⟩
  exact ⟨us, comma, vs, rfl, hus, hkind, hvs⟩

end Nodes

/-- The text of an operand does not begin with what the operator before it would be read together
with. -/
theorem Readable.joins_eq_false {node : Node} {op : UnaryOp} {operand : Expr} {c : Char}
    (h : Readable types (Expr.unary node op operand).parts) (hc : MayBegin operand c .unary)
    (hbegins : [c] <+: (plainText types operand).toList) : joins op.spelling c = false := by
  rw [← Bool.not_eq_true]
  intro hjoin
  rcases joins_unary hjoin with heq | ⟨hdouble, hspelling⟩
  · exact hc.1 heq
  · rw [← hspelling] at hbegins
    cases op with
    | plus => exact h.signs node _ operand List.mem_cons_self (.inl rfl) hbegins
    | minus => exact h.signs node _ operand List.mem_cons_self (.inr rfl) hbegins
    | addressOf =>
        -- an operand that takes an address itself cannot have its address taken
        obtain ⟨inner, e, rfl⟩ := hc.2 (by cases hspelling; rfl)
        rcases h.addresses node _ List.mem_cons_self with hassignable | hbegin
        · cases hassignable
        · exact hbegin hbegins
    | not | complement | deref => cases hdouble

theorem mayBegin_unary {node : Node} {op : UnaryOp} {operand : Expr} {c : Char}
    (h : op.spelling.toList = [c]) : MayBegin (.unary node op operand) c .unary := by
  cases op with
  | addressOf =>
      cases h
      exact ⟨by decide, fun _ => ⟨node, operand, rfl⟩⟩
  | _ =>
      cases h
      exact ⟨by decide, fun heq => by cases heq⟩

/-- The text of an expression that tokens spell is read as tokens that spell it again. -/
theorem readsBack {Place : Span → List Token → Prop} {phrase : Phrase} {ts : List Token}
    (h : Derives Place phrase ts) (hts : ∀ t ∈ ts, t.Formed aliases) :
    ReadsBack aliases types phrase := by
  induction h with
  | number hk _ =>
      intro _
      refine .token (hts _ List.mem_cons_self) (by rw [hk]; decide) fun u hu hlexeme => ?_
      rw [Expr.respell, ← hlexeme]
      exact .number (hu.trans hk) trivial
  | trueWord _ _ =>
      have hword : IsWord "true".toList := isWord_of_all (by decide) (by decide)
      exact fun _ => legible_keyword hword rfl fun _ hu => .trueWord hu trivial
  | falseWord _ _ =>
      have hword : IsWord "false".toList := isWord_of_all (by decide) (by decide)
      exact fun _ => legible_keyword hword rfl fun _ hu => .falseWord hu trivial
  | string hk _ =>
      intro _
      refine .token (hts _ List.mem_cons_self) (by rw [hk]; decide) fun u hu hlexeme => ?_
      rw [Expr.respell, ← hlexeme]
      exact .string (hu.trans hk) trivial
  | name hk _ =>
      intro _
      refine .token (hts _ List.mem_cons_self) (by rw [hk]; decide) fun u hu hlexeme => ?_
      rw [Expr.respell, ← hlexeme]
      exact .name (hu.trans hk) trivial
  | group _ _ _ _ ih =>
      intro hr
      rw [List.cons_append, List.forall_mem_cons, List.forall_mem_append] at hts
      have hinner := ih hts.2.1 hr.tail
      refine (legible_group hinner).imp (fun c hc => by subst hc; exact ⟨by decide, by decide⟩) ?_
      rintro _ ⟨left, us, right, rfl, hleft, hus, hright⟩
      exact .group hleft hus hright trivial
  | ofPrimary _ ih => exact fun hr => (ih hts hr).imp (fun _ hc => hc) fun _ => .ofPrimary
  | subscript _ _ _ _ _ iha ihi =>
      intro hr
      rw [List.append_assoc, List.cons_append, List.forall_mem_append, List.forall_mem_cons,
        List.forall_mem_append] at hts
      have harray := iha hts.1 hr.tail.left
      have hindex := ihi hts.2.2.1 hr.tail.right
      refine (legible_subscript harray hindex).imp (fun _ hc => hc) ?_
      rintro _ ⟨us, _, rfl, hus, left, vs, right, rfl, hleft, hvs, hright⟩
      rw [← List.append_assoc]
      exact .subscript hus hleft hvs hright trivial
  | @callNone node left right ts callee hcallee _ _ _ ih =>
      intro hr
      obtain ⟨calleeNode, name, rfl⟩ := hr.callees node callee [] List.mem_cons_self
      obtain ⟨t, rfl, hkind, rfl⟩ := exists_name_of_derives hcallee
      have hname := ih (fun t ht => hts t (List.mem_append_left _ ht)) hr.tail.left
      have hword := isWord_of_identifier (hts t (by simp)) hkind
      have hargs : ReadsAs aliases (argumentsText types []).toList (· = []) := .nil rfl
      refine (legible_call hword hname hargs).imp (fun _ hc => hc) ?_
      rintro _ ⟨us, _, rfl, hus, left, _, right, rfl, hleft, rfl, hright⟩
      exact .callNone hus hleft hright trivial
  | @call node left right ts us callee args hcallee _ _ _ _ ihc iha =>
      intro hr
      rw [List.append_assoc, List.cons_append, List.forall_mem_append, List.forall_mem_cons,
        List.forall_mem_append] at hts
      obtain ⟨calleeNode, name, rfl⟩ := hr.callees node callee args List.mem_cons_self
      obtain ⟨t, rfl, hkind, rfl⟩ := exists_name_of_derives hcallee
      have hname := ihc hts.1 hr.tail.left
      have hargs := iha hts.2.2.1 hr.tail.right
      have hword := isWord_of_identifier (hts.1 t List.mem_cons_self) hkind
      refine (legible_call hword hname hargs).imp (fun _ hc => hc) ?_
      rintro _ ⟨us, _, rfl, hus, left, vs, right, rfl, hleft, hvs, hright⟩
      rw [← List.append_assoc]
      exact .call hus hleft hvs hright trivial
  | stepAfter _ hop _ ih =>
      intro hr
      have htarget := ih (fun t ht => hts t (List.mem_append_left _ ht)) hr.tail
      refine (legible_stepAfter hop htarget).imp (fun _ hc => hc) ?_
      rintro _ ⟨us, u, rfl, hus, hu⟩
      exact .stepAfter hus (hu ▸ hop) trivial
  | @lastArgument ts e _ ih =>
      intro hr
      have he := ih hts hr.left
      have htext : argumentsText types [e] = plainText types e := by
        simp [argumentsText, plainTexts, Text.join]
      rw [htext]
      exact he.reads.imp fun _ => .lastArgument
  | moreArguments _ _ hes ihe ihs =>
      intro hr
      rw [List.forall_mem_append, List.forall_mem_cons] at hts
      have he := ihe hts.1 hr.left
      have hmore := ihs hts.2.2 hr.right
      refine (readsAs_arguments (by cases hes <;> simp) he hmore).imp ?_
      rintro _ ⟨us, comma, vs, rfl, hus, hkind, hvs⟩
      exact .moreArguments hus hkind hvs
  | ofSuffixed _ ih =>
      exact fun hr => (ih hts hr).imp (fun _ hc => ⟨hc.1, fun heq => absurd heq hc.2⟩)
        fun _ => .ofSuffixed
  | stepBefore hop _ _ ih =>
      intro hr
      rw [List.forall_mem_cons] at hts
      have htarget := ih hts.2 hr.tail
      refine (legible_stepBefore hop htarget).imp (fun c hc => ?_) ?_
      · rcases hc with rfl | rfl <;> exact ⟨by decide, fun heq => by cases heq⟩
      · rintro _ ⟨u, us, rfl, hu, hus⟩
        exact .stepBefore (hu ▸ hop) hus trivial
  | @unary node t op ts operand hop _ _ ih =>
      intro hr
      rw [List.forall_mem_cons] at hts
      have hoperand := ih hts.2 hr.tail
      refine (legible_unary hop hoperand fun c hc hbegins => hr.joins_eq_false hc hbegins).imp
        (fun _ hc => mayBegin_unary hc) ?_
      rintro _ ⟨u, us, rfl, hu, hus⟩
      exact .unary (hu ▸ hop) hus trivial
  | cast _ _ _ _ _ _ _ ih =>
      intro hr
      rw [List.cons_append, List.forall_mem_cons, List.forall_mem_append,
        List.forall_mem_cons] at hts
      have hoperand := ih hts.2.2.2 hr.tail
      obtain ⟨t, ht, hcast⟩ := hr.casts _ _ _ List.mem_cons_self
      refine (legible_cast ht hcast hoperand).imp (fun c hc => ?_) ?_
      · subst hc
        exact ⟨by decide, fun heq => by cases heq⟩
      · rintro _ ⟨left, _, rfl, hleft, ss, ps, _, rfl, hss, hps, right, us, rfl, hright, hus⟩
        rw [Expr.respell, castSpelling, ht]
        exact .cast hleft hss hps trivial hright hus trivial
  | ofUnary _ ih => exact fun hr => (ih hts hr).imp (fun _ hc => hc.1) fun _ => .ofUnary
  | binary hle _ hop _ _ ihl ihr =>
      intro hr
      rw [List.forall_mem_append, List.forall_mem_cons] at hts
      have hleft := ihl hts.1 hr.tail.left
      have hright := ihr hts.2.2 hr.tail.right
      refine (legible_spaced (mem_symbols_of_binaryOp? hop) hleft hright).imp (fun _ hc => hc) ?_
      rintro _ ⟨us, u, vs, rfl, hus, hu, hvs⟩
      exact .binary hle hus (hu ▸ hop) hvs trivial
  | ofBinary _ ih => exact fun hr => (ih hts hr).imp (fun _ hc => hc) fun _ => .ofBinary
  | conditional _ _ _ _ _ _ ihc ihy ihn =>
      intro hr
      rw [List.append_assoc, List.cons_append, List.forall_mem_append, List.forall_mem_cons,
        List.forall_mem_append, List.forall_mem_cons] at hts
      have hcondition := ihc hts.1 hr.tail.left.left
      have hyes := ihy hts.2.2.1 hr.tail.left.right
      have hno := ihn hts.2.2.2.2 hr.tail.right
      refine (legible_conditional hcondition hyes hno).imp (fun _ hc => hc) ?_
      rintro _ ⟨us, question, vs, colon, ws, rfl, hus, hq, hvs, hc, hws⟩
      exact .conditional hus hq hvs hc hws trivial
  | ofConditional _ ih => exact fun hr => (ih hts hr).imp (fun _ hc => hc) fun _ => .ofConditional
  | assign _ hassignable hop _ _ iht ihv =>
      intro hr
      rw [List.forall_mem_append, List.forall_mem_cons] at hts
      have htarget := iht hts.1 hr.tail.left
      have hvalue := ihv hts.2.2 hr.tail.right
      refine (legible_spaced (mem_symbols_of_assignOp? hop) htarget hvalue).imp
        (fun _ hc => hc.1) ?_
      rintro _ ⟨us, u, vs, rfl, hus, hu, hvs⟩
      exact .assign hus ((Expr.isAssignable_respell _).trans hassignable) (hu ▸ hop) hvs trivial

end KernelWeaver.Printing
