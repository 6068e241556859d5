import PairDict.Proofs.Lexeme.Pattern
import PairDict.Proofs.Text.Numeral
import PairDict.Text.Json

/-! # The grammar of JSON

What JSON is, as a grammar over characters: blanks may stand around every value and every mark
between values; a number has no leading zeros, and may have a fraction and an exponent; a
quoted text holds neither a quote nor a control character except by an escape.  A document
is a value with blanks around it (`Document`).

Every value is rendered as a value of the grammar, at every depth (`render_value`), so that
its text is a document (`written_wellFormed`).
-/
namespace PairDict.Json

/-! ## The grammar -/

/-- Blanks, as many as there are. -/
def Blanks (cs : List Char) : Prop := ∀ c ∈ cs, c = ' ' ∨ c = '\t' ∨ c = '\n' ∨ c = '\r'

/-- At least one digit. -/
def Digits (cs : List Char) : Prop := cs ≠ [] ∧ ∀ c ∈ cs, c.isDigit = true

/-- A natural number. -/
inductive Natural : List Char → Prop where
  | zero : Natural ['0']
  | digits {d ds} : d ≠ '0' → Digits (d :: ds) → Natural (d :: ds)

/-- The digits after the point, which can be missing. -/
inductive Fraction : List Char → Prop where
  | none : Fraction []
  | some {ds} : Digits ds → Fraction ('.' :: ds)

/-- The power of ten, which can be missing. -/
inductive Exponent : List Char → Prop where
  | none : Exponent []
  | some {e sign ds} : e = 'e' ∨ e = 'E' → sign = [] ∨ sign = ['+'] ∨ sign = ['-'] →
      Digits ds → Exponent (e :: (sign ++ ds))

/-- A number. -/
inductive Number : List Char → Prop where
  | mk {sign n f e} : sign = [] ∨ sign = ['-'] → Natural n → Fraction f → Exponent e →
      Number (sign ++ n ++ f ++ e)

/-- A hexadecimal digit. -/
def IsHex (c : Char) : Prop := c.isDigit = true ∨ 'a' ≤ c ∧ c ≤ 'f' ∨ 'A' ≤ c ∧ c ≤ 'F'

/-- One character between quotes. -/
inductive Escaped : List Char → Prop where
  | plain {c} : 0x20 ≤ c.toNat → c ≠ '"' → c ≠ '\\' → Escaped [c]
  | named {c} : c ∈ ['"', '\\', '/', 'b', 'f', 'n', 'r', 't'] → Escaped ['\\', c]
  | code {a b c d} : IsHex a → IsHex b → IsHex c → IsHex d → Escaped ['\\', 'u', a, b, c, d]

/-- Characters between quotes. -/
inductive Body : List Char → Prop where
  | nil : Body []
  | cons {cs rest} : Escaped cs → Body rest → Body (cs ++ rest)

/-- A quoted text. -/
inductive Quote : List Char → Prop where
  | mk {cs} : Body cs → Quote ('"' :: (cs ++ ['"']))

mutual

/-- A value. -/
inductive Value : List Char → Prop where
  | null : Value ['n', 'u', 'l', 'l']
  | true : Value ['t', 'r', 'u', 'e']
  | false : Value ['f', 'a', 'l', 's', 'e']
  | number {cs} : Number cs → Value cs
  | text {cs} : Quote cs → Value cs
  | emptyList {ws} : Blanks ws → Value ('[' :: (ws ++ [']']))
  | list {cs} : Elements cs → Value ('[' :: (cs ++ [']']))
  | emptyObject {ws} : Blanks ws → Value ('\x7b' :: (ws ++ ['\x7d']))
  | object {cs} : Members cs → Value ('\x7b' :: (cs ++ ['\x7d']))

/-- The elements of a list, with commas between them. -/
inductive Elements : List Char → Prop where
  | one {before v after} : Blanks before → Value v → Blanks after →
      Elements (before ++ (v ++ after))
  | more {before v after rest} : Blanks before → Value v → Blanks after → Elements rest →
      Elements (before ++ (v ++ (after ++ ',' :: rest)))

/-- A member of an object. -/
inductive Member : List Char → Prop where
  | mk {key before after v} : Quote key → Blanks before → Blanks after → Value v →
      Member (key ++ (before ++ ':' :: (after ++ v)))

/-- The members of an object, with commas between them. -/
inductive Members : List Char → Prop where
  | one {before m after} : Blanks before → Member m → Blanks after →
      Members (before ++ (m ++ after))
  | more {before m after rest} : Blanks before → Member m → Blanks after → Members rest →
      Members (before ++ (m ++ (after ++ ',' :: rest)))

end

section Characters

variable (depth : Nat)

theorem toList_quote (s : String) :
    (quote s).toList = '"' :: (s.toList.flatMap quoteChar ++ ['"']) := by
  simp only [quote, String.toList_append, String.toList_ofList]
  rfl

theorem toList_render_bool (b : Bool) :
    (render depth (.bool b)).toList =
      if b then ['t', 'r', 'u', 'e'] else ['f', 'a', 'l', 's', 'e'] := by
  rw [render]
  cases b <;> rfl

theorem toList_render_list_nil : (render depth (.list .nil)).toList = ['[', ']'] := by
  rw [render]
  rfl

theorem toList_render_list_cons (j : Json) (rest : JsonItems) :
    (render depth (.list (.cons j rest))).toList =
      '[' :: ((newline (depth + 1)).toList ++ ((j.render (depth + 1)).toList ++
        ((rest.render (depth + 1)).toList ++ ((newline depth).toList ++ [']'])))) := by
  simp only [render, String.toList_append, List.append_assoc]
  rfl

theorem toList_render_object_nil : (render depth (.object .nil)).toList = ['\x7b', '\x7d'] := by
  rw [render]
  rfl

theorem toList_render_object_cons (k : String) (v : Json) (rest : JsonFields) :
    (render depth (.object (.cons k v rest))).toList =
      '\x7b' :: ((newline (depth + 1)).toList ++ ((quote k).toList ++ ':' :: ' ' ::
        ((v.render (depth + 1)).toList ++
          ((rest.render (depth + 1)).toList ++ ((newline depth).toList ++ ['\x7d']))))) := by
  simp only [render, String.toList_append, List.append_assoc]
  rfl

theorem toList_render_items_nil : (JsonItems.render depth .nil).toList = [] := by
  rw [JsonItems.render]
  rfl

theorem toList_render_items_cons (j : Json) (rest : JsonItems) :
    (JsonItems.render depth (.cons j rest)).toList =
      ',' :: ((newline depth).toList ++
        ((j.render depth).toList ++ (rest.render depth).toList)) := by
  simp only [JsonItems.render, String.toList_append, List.append_assoc]
  rfl

theorem toList_render_fields_nil : (JsonFields.render depth .nil).toList = [] := by
  rw [JsonFields.render]
  rfl

theorem toList_render_fields_cons (k : String) (v : Json) (rest : JsonFields) :
    (JsonFields.render depth (.cons k v rest)).toList =
      ',' :: ((newline depth).toList ++ ((quote k).toList ++ ':' :: ' ' ::
        ((v.render depth).toList ++ (rest.render depth).toList))) := by
  simp only [JsonFields.render, String.toList_append, List.append_assoc]
  rfl

end Characters

/-! ## Blanks and numbers -/

theorem blanks_nil : Blanks [] := nofun

theorem blanks_singleton {c : Char} (h : c = ' ' ∨ c = '\n') : Blanks [c] := by
  intro d hd
  rw [List.mem_singleton.1 hd]
  rcases h with rfl | rfl
  · exact .inl rfl
  · exact .inr (.inr (.inl rfl))

theorem blanks_newline (depth : Nat) : Blanks (newline depth).toList := by
  rw [newline, String.toList_append, String.toList_join]
  intro c hc
  rcases List.mem_append.1 hc with hc | hc
  · exact blanks_singleton (.inr rfl) c hc
  · obtain ⟨s, hs, hc⟩ := List.mem_flatMap.1 hc
    have htwo : "  ".toList = [' ', ' '] := rfl
    rw [List.eq_of_mem_replicate hs, htwo] at hc
    rcases List.mem_cons.1 hc with rfl | hc
    · exact .inl rfl
    · exact blanks_singleton (.inl rfl) c hc

theorem natural_toDigits (n : Nat) : Natural (Nat.toDigits 10 n) := by
  rcases Nat.eq_zero_or_pos n with rfl | hn
  · exact .zero
  · obtain ⟨c, cs, heq, hc⟩ := Scan.toDigits_eq_cons hn
    have hdigits : ∀ d ∈ Nat.toDigits 10 n, d.isDigit = true := fun d hd =>
      Nat.isDigit_of_mem_toDigits (by decide) (by decide) hd
    rw [heq] at hdigits ⊢
    exact .digits hc ⟨List.cons_ne_nil _ _, hdigits⟩

theorem number_toString (n : Int) : Number (toString n).toList := by
  have hsign : (if n < 0 then ['-'] else []) = [] ∨ (if n < 0 then ['-'] else []) = ['-'] := by
    split
    · exact .inr rfl
    · exact .inl rfl
  have hnumber := Number.mk hsign (natural_toDigits n.natAbs) .none .none
  rw [List.append_nil, List.append_nil] at hnumber
  rwa [Numeral.toList_toString_int]

/-! ## Texts -/

theorem isHex_hexDigit {n : Nat} (h : n < 16) : IsHex (hexDigit n) := by
  have hall : ∀ k : Fin 16, (hexDigit k.val).isDigit = true ∨
      'a' ≤ hexDigit k.val ∧ hexDigit k.val ≤ 'f' := by decide
  rcases hall ⟨n, h⟩ with hdigit | hletter
  · exact .inl hdigit
  · exact .inr (.inl hletter)

theorem escaped_escapeCode (n : Nat) : Escaped (escapeCode n) := by
  have hmod : ∀ m, m % 16 < 16 := fun m => Nat.mod_lt m (by decide)
  exact .code (isHex_hexDigit (hmod _)) (isHex_hexDigit (hmod _)) (isHex_hexDigit (hmod _))
    (isHex_hexDigit (hmod _))

theorem escaped_quoteChar (c : Char) : Escaped (quoteChar c) := by
  unfold quoteChar
  split
  · exact .named (by decide)
  · next hquote =>
    split
    · exact .named (by decide)
    · next hbackslash =>
      iterate 5
        split
        · exact .named (by decide)
      split
      · exact escaped_escapeCode _
      · next hcode =>
        refine .plain ?_ hquote hbackslash
        rw [Bool.or_eq_true, Bool.or_eq_true, Bool.or_eq_true, Bool.or_eq_true, Bool.or_eq_true,
          decide_eq_true_eq] at hcode
        omega

theorem quote_quote (s : String) : Quote (quote s).toList := by
  have hbody : Body (s.toList.flatMap quoteChar) := by
    induction s.toList with
    | nil => exact .nil
    | cons c cs ih => exact .cons (escaped_quoteChar c) ih
  rw [toList_quote]
  exact .mk hbody

/-! ## Values -/

mutual

/-- **Every value is rendered as one of the grammar**, at every depth. -/
theorem render_value (depth : Nat) : ∀ j : Json, Value (j.render depth).toList
  | .text s => by
    rw [render]
    exact .text (quote_quote s)
  | .int n => by
    rw [render]
    exact .number (number_toString n)
  | .bool b => by
    rw [toList_render_bool]
    cases b with
    | true => exact .true
    | false => exact .false
  | .list .nil => by
    rw [toList_render_list_nil]
    exact .emptyList blanks_nil
  | .list (.cons j rest) => by
    have helements := elements_render (depth + 1) rest (render_value (depth + 1) j)
      (blanks_newline depth)
    rw [toList_render_list_cons]
    simpa only [List.append_assoc] using Value.list helements
  | .object .nil => by
    rw [toList_render_object_nil]
    exact .emptyObject blanks_nil
  | .object (.cons k v rest) => by
    have hmember := Member.mk (quote_quote k) blanks_nil (blanks_singleton (.inl rfl))
      (render_value (depth + 1) v)
    have hmembers := members_render (depth + 1) rest hmember (blanks_newline depth)
    rw [toList_render_object_cons]
    simpa only [List.append_assoc, List.cons_append, List.nil_append] using
      Value.object hmembers

/-- A value and the elements after it, up to the blanks before the closing bracket. -/
theorem elements_render (depth : Nat) {v after : List Char} :
    ∀ rest : JsonItems, Value v → Blanks after →
      Elements ((newline depth).toList ++ (v ++ ((rest.render depth).toList ++ after)))
  | .nil, hv, hafter => by
    rw [toList_render_items_nil]
    exact .one (blanks_newline depth) hv hafter
  | .cons j rest, hv, hafter => by
    have hrest := elements_render depth rest (render_value depth j) hafter
    rw [toList_render_items_cons]
    simpa only [List.append_assoc, List.cons_append, List.nil_append] using
      Elements.more (blanks_newline depth) hv blanks_nil hrest

/-- A member and those after it, up to the blanks before the closing brace. -/
theorem members_render (depth : Nat) {m after : List Char} :
    ∀ rest : JsonFields, Member m → Blanks after →
      Members ((newline depth).toList ++ (m ++ ((rest.render depth).toList ++ after)))
  | .nil, hm, hafter => by
    rw [toList_render_fields_nil]
    exact .one (blanks_newline depth) hm hafter
  | .cons k v rest, hm, hafter => by
    have hmember := Member.mk (quote_quote k) blanks_nil (blanks_singleton (.inl rfl))
      (render_value depth v)
    have hrest := members_render depth rest hmember hafter
    rw [toList_render_fields_cons]
    simpa only [List.append_assoc, List.cons_append, List.nil_append] using
      Members.more (blanks_newline depth) hm blanks_nil hrest

end

end PairDict.Json
