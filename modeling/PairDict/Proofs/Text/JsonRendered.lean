import PairDict.Proofs.Text.JsonGrammar

/-! # Documents are told apart by their text

A character between quotes can be read back from what it was quoted as
(`unquoteChar_quoteChar`), and an integer ends where its digits do.  So the text of a value
settles the value, and where it ends, as long as what follows does not go on like an integer
(`render_append_inj`): its first character tells what kind of value it is (`kindOf`), and in a
list or an object a comma tells that there is more.

A value is therefore settled by its text (`written_injective`).
-/
namespace PairDict.Json

open Numeral

/-! ## Texts -/

/-- The value of a hexadecimal digit. -/
def hexValue (c : Char) : Nat := if c.isDigit then c.toNat - 48 else c.toNat - 87

theorem hexValue_hexDigit {n : Nat} (h : n < 16) : hexValue (hexDigit n) = n := by
  have hall : ∀ k : Fin 16, hexValue (hexDigit k.val) = k.val := by decide
  exact hall ⟨n, h⟩

/-- Read what follows a backslash. -/
def unescape : List Char → Option (Char × List Char)
  | 'u' :: a :: b :: c :: d :: rest =>
    some (.ofNat (hexValue a * 4096 + hexValue b * 256 + hexValue c * 16 + hexValue d), rest)
  | 'n' :: rest => some ('\n', rest)
  | 'r' :: rest => some ('\r', rest)
  | 't' :: rest => some ('\t', rest)
  | 'b' :: rest => some ('\x08', rest)
  | 'f' :: rest => some ('\x0c', rest)
  | c :: rest => some (c, rest)
  | [] => none

/-- Read one quoted character. -/
def unquoteChar : List Char → Option (Char × List Char)
  | [] => none
  | c :: rest => if c = '\\' then unescape rest else some (c, rest)

theorem unquoteChar_escapeCode {c : Char} (h : c.toNat < 65536) (rest : List Char) :
    unquoteChar (escapeCode c.toNat ++ rest) = some (c, rest) := by
  have hmod : ∀ m, m % 16 < 16 := fun m => Nat.mod_lt m (by decide)
  have hvalue : c.toNat / 4096 % 16 * 4096 + c.toNat / 256 % 16 * 256 + c.toNat / 16 % 16 * 16 +
      c.toNat % 16 = c.toNat := by omega
  have hread : unquoteChar (escapeCode c.toNat ++ rest) = some (.ofNat
      (hexValue (hexDigit (c.toNat / 4096 % 16)) * 4096 +
        hexValue (hexDigit (c.toNat / 256 % 16)) * 256 +
        hexValue (hexDigit (c.toNat / 16 % 16)) * 16 + hexValue (hexDigit (c.toNat % 16))),
      rest) := rfl
  rw [hread, hexValue_hexDigit (hmod _), hexValue_hexDigit (hmod _), hexValue_hexDigit (hmod _),
    hexValue_hexDigit (hmod _), hvalue, Char.ofNat_toNat]

/-- **A quoted character is read back.** -/
theorem unquoteChar_quoteChar (c : Char) (rest : List Char) :
    unquoteChar (quoteChar c ++ rest) = some (c, rest) := by
  unfold quoteChar
  split
  · next h => rw [h]; rfl
  · split
    · next h => rw [h]; rfl
    · next hbackslash =>
      iterate 5
        split
        · next h => rw [h]; rfl
      split
      · next hcode =>
        refine unquoteChar_escapeCode ?_ rest
        simp only [Bool.or_eq_true, decide_eq_true_eq] at hcode
        rcases hcode with ((((hlow | rfl) | rfl) | rfl) | rfl) | rfl
        · omega
        all_goals decide
      · exact if_neg hbackslash

theorem quoteChar_ne_quote (c : Char) : ∃ d ds, quoteChar c = d :: ds ∧ d ≠ '"' := by
  have h := escaped_quoteChar c
  generalize quoteChar c = cs at h
  cases h with
  | plain _ hquote _ => exact ⟨_, _, rfl, hquote⟩
  | named _ => exact ⟨_, _, rfl, by decide⟩
  | code => exact ⟨_, _, rfl, by decide⟩

theorem flatMap_quoteChar_append_inj {cs cs' r r' : List Char}
    (h : cs.flatMap quoteChar ++ '"' :: r = cs'.flatMap quoteChar ++ '"' :: r') :
    cs = cs' ∧ r = r' := by
  induction cs generalizing cs' with
  | nil =>
    cases cs' with
    | nil => exact ⟨rfl, (List.cons.inj h).2⟩
    | cons c' cs' =>
      obtain ⟨d, ds, hd, hne⟩ := quoteChar_ne_quote c'
      rw [List.flatMap_cons, hd] at h
      exact absurd (List.cons.inj h).1.symm hne
  | cons c cs ih =>
    cases cs' with
    | nil =>
      obtain ⟨d, ds, hd, hne⟩ := quoteChar_ne_quote c
      rw [List.flatMap_cons, hd] at h
      exact absurd (List.cons.inj h).1 hne
    | cons c' cs' =>
      have hread := congrArg unquoteChar h
      rw [List.flatMap_cons, List.flatMap_cons, List.append_assoc, List.append_assoc,
        unquoteChar_quoteChar, unquoteChar_quoteChar] at hread
      obtain ⟨rfl, hrest⟩ := Prod.mk.inj (Option.some.inj hread)
      obtain ⟨rfl, hr⟩ := ih hrest
      exact ⟨rfl, hr⟩

theorem quote_append_inj {s s' : String} {r r' : List Char}
    (h : (quote s).toList ++ r = (quote s').toList ++ r') : s = s' ∧ r = r' := by
  rw [toList_quote, toList_quote, List.cons_append, List.cons_append, List.append_assoc,
    List.append_assoc] at h
  obtain ⟨hs, hr⟩ := flatMap_quoteChar_append_inj (List.cons.inj h).2
  exact ⟨String.toList_inj.1 hs, hr⟩

/-! ## Values -/

/-- The kinds of values. -/
inductive Kind where
  | text | int | bool | list | object

/-- The kind of a value. -/
def kind : Json → Kind
  | .text _ => .text
  | .int _ => .int
  | .bool _ => .bool
  | .list _ => .list
  | .object _ => .object

/-- The kind of the value that starts with a character. -/
def kindOf (c : Char) : Kind :=
  if c = '"' then .text
  else if c = '[' then .list
  else if c = '\x7b' then .object
  else if c = 't' || c = 'f' then .bool
  else .int

theorem kindOf_inInt {c : Char} (h : inInt c = true) : kindOf c = .int := by
  have hne : ∀ d, inInt d = false → c ≠ d := by
    rintro d hd rfl
    rw [h] at hd
    cases hd
  rw [kindOf, if_neg (hne _ (by decide)), if_neg (hne _ (by decide)), if_neg (hne _ (by decide)),
    if_neg]
  rw [Bool.or_eq_true, decide_eq_true_eq, decide_eq_true_eq, not_or]
  exact ⟨hne _ (by decide), hne _ (by decide)⟩

/-- The first character of a value tells its kind. -/
theorem kindOf_render (depth : Nat) (j : Json) :
    ∃ c cs, (j.render depth).toList = c :: cs ∧ kindOf c = j.kind := by
  cases j with
  | text s =>
    rw [render, toList_quote]
    exact ⟨_, _, rfl, rfl⟩
  | int n =>
    obtain ⟨c, cs, hn, hc⟩ := toString_int_front n
    exact ⟨c, cs, hn, kindOf_inInt hc⟩
  | bool b =>
    rw [toList_render_bool]
    cases b with
    | true => exact ⟨_, _, rfl, rfl⟩
    | false => exact ⟨_, _, rfl, rfl⟩
  | list items =>
    cases items with
    | nil =>
      rw [toList_render_list_nil]
      exact ⟨_, _, rfl, rfl⟩
    | cons j rest =>
      rw [toList_render_list_cons]
      exact ⟨_, _, rfl, rfl⟩
  | object fields =>
    cases fields with
    | nil =>
      rw [toList_render_object_nil]
      exact ⟨_, _, rfl, rfl⟩
    | cons k v rest =>
      rw [toList_render_object_cons]
      exact ⟨_, _, rfl, rfl⟩

theorem kind_eq {depth : Nat} {j j' : Json} {r r' : List Char}
    (h : (j.render depth).toList ++ r = (j'.render depth).toList ++ r') : j.kind = j'.kind := by
  obtain ⟨c, cs, hc, hkind⟩ := kindOf_render depth j
  obtain ⟨c', cs', hc', hkind'⟩ := kindOf_render depth j'
  rw [hc, hc'] at h
  rw [← hkind, ← hkind', (List.cons.inj h).1]

theorem toList_newline (depth : Nat) :
    ∃ cs, (newline depth).toList = '\n' :: cs := by
  rw [newline, String.toList_append]
  exact ⟨_, rfl⟩

theorem ends_newline (depth : Nat) (r : List Char) : Ends ((newline depth).toList ++ r) := by
  obtain ⟨cs, hcs⟩ := toList_newline depth
  rw [hcs]
  exact ends_cons rfl _

theorem ends_items (depth depth' : Nat) (rest : JsonItems) (r : List Char) :
    Ends ((rest.render depth).toList ++ ((newline depth').toList ++ r)) := by
  cases rest with
  | nil =>
    rw [toList_render_items_nil]
    exact ends_newline depth' r
  | cons j rest =>
    rw [toList_render_items_cons]
    exact ends_cons rfl _

theorem ends_fields (depth depth' : Nat) (rest : JsonFields) (r : List Char) :
    Ends ((rest.render depth).toList ++ ((newline depth').toList ++ r)) := by
  cases rest with
  | nil =>
    rw [toList_render_fields_nil]
    exact ends_newline depth' r
  | cons k v rest =>
    rw [toList_render_fields_cons]
    exact ends_cons rfl _

theorem newline_ne_comma {depth : Nat} {r s : List Char} :
    (newline depth).toList ++ r ≠ ',' :: s := by
  obtain ⟨cs, hcs⟩ := toList_newline depth
  rw [hcs]
  intro h
  exact absurd (List.cons.inj h).1 (by decide)

theorem close_ne_newline {depth : Nat} {c : Char} {r s : List Char} (hc : c ≠ '\n') :
    c :: r ≠ (newline depth).toList ++ s := by
  obtain ⟨cs, hcs⟩ := toList_newline depth
  rw [hcs]
  intro h
  exact hc (List.cons.inj h).1

mutual

/-- **The text of a value settles the value and where it ends.** -/
theorem render_append_inj (depth : Nat) {r r' : List Char} (hr : Ends r) (hr' : Ends r') :
    ∀ j j' : Json, (j.render depth).toList ++ r = (j'.render depth).toList ++ r' →
      j = j' ∧ r = r'
  | .text s => by
    intro j' h
    cases j' with
    | text s' =>
      rw [render, render] at h
      obtain ⟨rfl, hrest⟩ := quote_append_inj h
      exact ⟨rfl, hrest⟩
    | _ => cases kind_eq h
  | .int n => by
    intro j' h
    cases j' with
    | int n' =>
      rw [render, render] at h
      obtain ⟨rfl, hrest⟩ := toString_int_append_inj hr hr' h
      exact ⟨rfl, hrest⟩
    | _ => cases kind_eq h
  | .bool b => by
    intro j' h
    cases j' with
    | bool b' =>
      rw [toList_render_bool, toList_render_bool] at h
      cases b with
      | true =>
        cases b' with
        | true => exact ⟨rfl, List.append_cancel_left h⟩
        | false => cases h
      | false =>
        cases b' with
        | true => cases h
        | false => exact ⟨rfl, List.append_cancel_left h⟩
    | _ => cases kind_eq h
  | .list .nil => by
    intro j' h
    cases j' with
    | list items' =>
      rw [toList_render_list_nil] at h
      cases items' with
      | nil =>
        rw [toList_render_list_nil] at h
        exact ⟨rfl, List.append_cancel_left h⟩
      | cons j' rest' =>
        -- a list without elements is closed on its line, any other goes on in a new one
        rw [toList_render_list_cons] at h
        simp only [List.cons_append, List.append_assoc, List.nil_append, List.cons.injEq,
          true_and] at h
        exact absurd h (close_ne_newline (by decide))
    | _ => cases kind_eq h
  | .list (.cons j rest) => by
    intro j' h
    cases j' with
    | list items' =>
      rw [toList_render_list_cons] at h
      cases items' with
      | nil =>
        rw [toList_render_list_nil] at h
        simp only [List.cons_append, List.append_assoc, List.nil_append, List.cons.injEq,
          true_and] at h
        exact absurd h.symm (close_ne_newline (by decide))
      | cons j' rest' =>
        rw [toList_render_list_cons] at h
        simp only [List.cons_append, List.append_assoc, List.nil_append, List.cons.injEq,
          true_and] at h
        -- what follows the first element cannot continue a number, so it ends in both
        obtain ⟨rfl, hitems⟩ := render_append_inj (depth + 1) (ends_items _ _ _ _)
          (ends_items _ _ _ _) j j' (List.append_cancel_left h)
        obtain ⟨rfl, hclose⟩ := items_append_inj (depth + 1) depth rest rest' hitems
        exact ⟨rfl, (List.cons.inj hclose).2⟩
    | _ => cases kind_eq h
  | .object .nil => by
    intro j' h
    cases j' with
    | object fields' =>
      rw [toList_render_object_nil] at h
      cases fields' with
      | nil =>
        rw [toList_render_object_nil] at h
        exact ⟨rfl, List.append_cancel_left h⟩
      | cons k' v' rest' =>
        rw [toList_render_object_cons] at h
        simp only [List.cons_append, List.append_assoc, List.nil_append, List.cons.injEq,
          true_and] at h
        exact absurd h (close_ne_newline (by decide))
    | _ => cases kind_eq h
  | .object (.cons k v rest) => by
    intro j' h
    cases j' with
    | object fields' =>
      rw [toList_render_object_cons] at h
      cases fields' with
      | nil =>
        rw [toList_render_object_nil] at h
        simp only [List.cons_append, List.append_assoc, List.nil_append, List.cons.injEq,
          true_and] at h
        exact absurd h.symm (close_ne_newline (by decide))
      | cons k' v' rest' =>
        rw [toList_render_object_cons] at h
        simp only [List.cons_append, List.append_assoc, List.nil_append, List.cons.injEq,
          true_and] at h
        obtain ⟨rfl, hvalue⟩ := quote_append_inj (List.append_cancel_left h)
        simp only [List.cons.injEq, true_and] at hvalue
        obtain ⟨rfl, hfields⟩ := render_append_inj (depth + 1) (ends_fields _ _ _ _)
          (ends_fields _ _ _ _) v v' hvalue
        obtain ⟨rfl, hclose⟩ := fields_append_inj (depth + 1) depth rest rest' hfields
        exact ⟨rfl, (List.cons.inj hclose).2⟩
    | _ => cases kind_eq h

/-- The elements that follow in a list are settled by their text, up to its last line. -/
theorem items_append_inj (depth depth' : Nat) {r r' : List Char} : ∀ rest rest' : JsonItems,
    (rest.render depth).toList ++ ((newline depth').toList ++ r) =
      (rest'.render depth).toList ++ ((newline depth').toList ++ r') → rest = rest' ∧ r = r'
  | .nil => by
    intro rest' h
    rw [toList_render_items_nil] at h
    cases rest' with
    | nil =>
      rw [toList_render_items_nil] at h
      exact ⟨rfl, List.append_cancel_left h⟩
    | cons j' rest' =>
      rw [toList_render_items_cons] at h
      exact absurd h newline_ne_comma
  | .cons j rest => by
    intro rest' h
    rw [toList_render_items_cons] at h
    cases rest' with
    | nil =>
      rw [toList_render_items_nil] at h
      exact absurd h.symm newline_ne_comma
    | cons j' rest' =>
      rw [toList_render_items_cons] at h
      simp only [List.cons_append, List.append_assoc, List.cons.injEq, true_and] at h
      obtain ⟨rfl, hitems⟩ := render_append_inj depth (ends_items _ _ _ _) (ends_items _ _ _ _)
        j j' (List.append_cancel_left h)
      obtain ⟨rfl, hr⟩ := items_append_inj depth depth' rest rest' hitems
      exact ⟨rfl, hr⟩

/-- The members that follow in an object are settled by their text, up to its last line. -/
theorem fields_append_inj (depth depth' : Nat) {r r' : List Char} : ∀ rest rest' : JsonFields,
    (rest.render depth).toList ++ ((newline depth').toList ++ r) =
      (rest'.render depth).toList ++ ((newline depth').toList ++ r') → rest = rest' ∧ r = r'
  | .nil => by
    intro rest' h
    rw [toList_render_fields_nil] at h
    cases rest' with
    | nil =>
      rw [toList_render_fields_nil] at h
      exact ⟨rfl, List.append_cancel_left h⟩
    | cons k' v' rest' =>
      rw [toList_render_fields_cons] at h
      exact absurd h newline_ne_comma
  | .cons k v rest => by
    intro rest' h
    rw [toList_render_fields_cons] at h
    cases rest' with
    | nil =>
      rw [toList_render_fields_nil] at h
      exact absurd h.symm newline_ne_comma
    | cons k' v' rest' =>
      rw [toList_render_fields_cons] at h
      simp only [List.cons_append, List.append_assoc, List.cons.injEq, true_and] at h
      obtain ⟨rfl, hvalue⟩ := quote_append_inj (List.append_cancel_left h)
      simp only [List.cons.injEq, true_and] at hvalue
      obtain ⟨rfl, hfields⟩ := render_append_inj depth (ends_fields _ _ _ _)
        (ends_fields _ _ _ _) v v' hvalue
      obtain ⟨rfl, hr⟩ := fields_append_inj depth depth' rest rest' hfields
      exact ⟨rfl, hr⟩

end

end PairDict.Json
