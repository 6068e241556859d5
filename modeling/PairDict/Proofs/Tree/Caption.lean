import PairDict.Lexeme.Scan
import PairDict.Proofs.Tree.Indented

/-! # What a line of an outline says

A line has a **caption**: a word that tells what the line is about, and perhaps a value, and
perhaps an annotation.  Only some words are used, and each is used in captions of one form
(`Caption.Form.words`).  So a line can be read from the left (`Caption.legible`): words and values
hold no blank, the word tells how the line goes on, and an annotation, which may hold anything,
can be told from what follows the line (`Caption.Delimited`).
-/
namespace PairDict

open Outline (Legible)

/-- What a line says. -/
inductive Caption (α : Type) where
  /-- A node without a value of its own. -/
  | plain (word : String) (a : α)
  /-- A node with a value. -/
  | valued (word value : String) (a : α)
  /-- The name that a statement binds. -/
  | bound (word name : String)
  /-- The role of what stands below. -/
  | role (word : String)

namespace Caption

variable {α : Type} {Q : α → Prop} {label : α → String}

/-- The line with a caption. -/
def text (label : α → String) : Caption α → String
  | .plain w a => w ++ " " ++ label a
  | .valued w v a => w ++ " " ++ v ++ " " ++ label a
  | .bound w x => w ++ " " ++ x
  | .role w => w

/-- The forms of captions. -/
inductive Form where
  | plain | valued | bound | role

/-- The words for a form. -/
def Form.words : Form → List String
  | .plain => ["Program", "VarStmt", "AssignStmt", "PrintStmt", "IfStmt", "ForStmt", "Block",
      "PairLit"]
  | .valued => ["Name", "IntLit", "BoolLit", "UnaryExpr", "BinaryExpr", "DictExpr"]
  | .bound => ["Name:", "Var:"]
  | .role => ["Value:", "Cond:", "Then:", "Else:", "Dict:", "Body:", "Key:"]

/-- The text holds no blank. -/
def Solid (s : String) : Prop := ∀ c ∈ s.toList, Scan.isBlank c = false

/-- The caption has a word for its form and a value without blanks, and `Q` holds of its
annotation. -/
inductive Legal (Q : α → Prop) : Caption α → Prop where
  | plain {w a} : w ∈ Form.plain.words → Q a → Legal Q (.plain w a)
  | valued {w v a} : w ∈ Form.valued.words → Solid v → Q a → Legal Q (.valued w v a)
  | bound {w x} : w ∈ Form.bound.words → Solid x → Legal Q (.bound w x)
  | role {w} : w ∈ Form.role.words → Legal Q (.role w)

/-- The form of a caption. -/
def form : Caption α → Form
  | .plain .. => .plain
  | .valued .. => .valued
  | .bound .. => .bound
  | .role .. => .role

/-- The word of a caption. -/
def word : Caption α → String
  | .plain w _ | .valued w _ _ | .bound w _ | .role w => w

/-- What follows the word, up to and behind the end of the line. -/
def tail (label : α → String) (r : List Char) : Caption α → List Char
  | .plain _ a => ' ' :: ((label a).toList ++ '\n' :: r)
  | .valued _ v a => ' ' :: (v.toList ++ ' ' :: ((label a).toList ++ '\n' :: r))
  | .bound _ x => ' ' :: (x.toList ++ '\n' :: r)
  | .role _ => '\n' :: r

theorem word_prefix_text (label : α → String) (x : Caption α) :
    x.word.toList <+: (x.text label).toList := by
  cases x with
  | role w => exact List.prefix_refl _
  | _ =>
    simp only [text, word, String.toList_append, List.append_assoc]
    exact List.prefix_append _ _

theorem toList_text_append (label : α → String) (r : List Char) (x : Caption α) :
    (x.text label).toList ++ '\n' :: r = x.word.toList ++ x.tail label r := by
  cases x with
  | role w => rfl
  | _ =>
    simp only [text, String.toList_append, List.append_assoc]
    rfl

theorem tail_front (label : α → String) (r : List Char) (x : Caption α) :
    ∃ c s, x.tail label r = c :: s ∧ Scan.isBlank c = true := by
  cases x <;> exact ⟨_, _, rfl, rfl⟩

/-- Whether a text holds no blank can be decided. -/
theorem Solid.of_all {s : String} (h : s.toList.all (fun c => !Scan.isBlank c) = true) :
    Solid s := by
  intro c hc
  have hblank := List.all_eq_true.1 h c hc
  rwa [Bool.not_eq_true'] at hblank

/-- A text without blanks ends at the first blank. -/
theorem Solid.append_inj {s t : String} (hs : Solid s) (ht : Solid t) {c d : Char}
    (hc : Scan.isBlank c = true) (hd : Scan.isBlank d = true) {r r' : List Char}
    (h : s.toList ++ c :: r = t.toList ++ d :: r') : s = t ∧ c :: r = d :: r' := by
  have htake : ∀ {s : String} {c : Char} {r : List Char}, Solid s → Scan.isBlank c = true →
      (s.toList ++ c :: r).takeWhile (fun c => !Scan.isBlank c) = s.toList := by
    intro s c r hs hc
    rw [List.takeWhile_append_of_pos, List.takeWhile_cons_of_neg, List.append_nil]
    · rw [hc]
      exact Bool.false_ne_true
    · intro d hd
      rw [hs d hd]
      rfl
  have heq : s.toList = t.toList := by rw [← htake hs hc, h, htake ht hd]
  obtain rfl := String.toList_inj.1 heq
  exact ⟨rfl, List.append_cancel_left h⟩

/-! ## Words -/

/-- No word is used in two forms. -/
theorem Form.eq_of_mem {f g : Form} {w : String} (hf : w ∈ f.words) (hg : w ∈ g.words) :
    f = g := by
  have hapart : ∀ f g : Form, f ≠ g → ∀ w ∈ f.words, w ∉ g.words := by
    intro f g
    cases f <;> cases g <;> first | exact fun h => absurd rfl h | exact fun _ => by decide
  exact Classical.byContradiction fun hne => hapart f g hne w hf hg

/-- A word holds no blank, and is not empty. -/
theorem Form.solid_of_mem {f : Form} {w : String} (h : w ∈ f.words) :
    Solid w ∧ ∃ c cs, w.toList = c :: cs := by
  have hwords : ∀ w ∈ f.words, w.toList.all (fun c => !Scan.isBlank c) = true ∧ w ≠ "" := by
    cases f <;> decide
  obtain ⟨hsolid, hne⟩ := hwords w h
  exact ⟨.of_all hsolid,
    List.exists_cons_of_ne_nil fun hnil => hne (String.toList_inj.1 hnil)⟩

theorem Legal.mem_words {x : Caption α} (h : x.Legal Q) : x.word ∈ x.form.words := by
  cases h <;> assumption

/-! ## Reading a line -/

/-- An annotation of which `Q` holds can be told from what follows the line that it ends. -/
def Delimited (label : α → String) (Q : α → Prop) : Prop :=
  ∀ {a b r r'}, Q a → Q b →
    (label a).toList ++ '\n' :: r = (label b).toList ++ '\n' :: r' → a = b ∧ r = r'

/-- **Every line can be read.** -/
theorem legible (hlabel : Delimited label Q) : Legible (text label) (Legal Q) where
  front := by
    intro x hx
    obtain ⟨hsolid, c, cs, hc⟩ := Form.solid_of_mem hx.mem_words
    obtain ⟨s, hs⟩ := word_prefix_text label x
    rw [← hs, hc]
    refine ⟨c, cs ++ s, rfl, ?_⟩
    rintro rfl
    have hblank : Scan.isBlank ' ' = false := hsolid _ (hc ▸ List.mem_cons_self)
    cases hblank
  ends := by
    intro x y r r' hx hy h
    rw [toList_text_append, toList_text_append] at h
    obtain ⟨c, s, hc, hblank⟩ := tail_front label r x
    obtain ⟨c', s', hc', hblank'⟩ := tail_front label r' y
    rw [hc, hc'] at h
    -- the word tells the form, and the form how the line goes on
    obtain ⟨hword, htail⟩ := (Form.solid_of_mem hx.mem_words).1.append_inj
      (Form.solid_of_mem hy.mem_words).1 hblank hblank' h
    rw [← hc, ← hc'] at htail
    have hform : x.form = y.form := Form.eq_of_mem hx.mem_words (hword ▸ hy.mem_words)
    cases hx with
    | plain hw ha =>
      cases hy with
      | plain hw' ha' =>
        obtain ⟨rfl, hrest⟩ := hlabel ha ha' (List.cons.inj htail).2
        obtain rfl := hword
        exact ⟨rfl, hrest⟩
      | _ => cases hform
    | valued hw hv ha =>
      cases hy with
      | valued hw' hv' ha' =>
        obtain ⟨rfl, hlabels⟩ := hv.append_inj hv' rfl rfl (List.cons.inj htail).2
        obtain ⟨rfl, hrest⟩ := hlabel ha ha' (List.cons.inj hlabels).2
        obtain rfl := hword
        exact ⟨rfl, hrest⟩
      | _ => cases hform
    | bound hw hn =>
      cases hy with
      | bound hw' hn' =>
        obtain ⟨rfl, hrest⟩ := hn.append_inj hn' rfl rfl (List.cons.inj htail).2
        obtain rfl := hword
        exact ⟨rfl, (List.cons.inj hrest).2⟩
      | _ => cases hform
    | role hw =>
      cases hy with
      | role hw' =>
        obtain rfl := hword
        exact ⟨rfl, (List.cons.inj htail).2⟩
      | _ => cases hform

end Caption

end PairDict
