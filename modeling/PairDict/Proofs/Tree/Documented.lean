import PairDict.Proofs.Grammar.Printed
import PairDict.Proofs.Pipeline.Located
import PairDict.Proofs.Text.JsonDepth
import PairDict.Proofs.Text.JsonRendered
import PairDict.Tree.Document

/-! # Documents keep what they show of a tree

The document of a tree shows every annotation but those of bound names, of sequences and of
closing braces.  What it **shows** is the tree without these (`Program.shown`), and a
document depends on nothing else (`Program.toJson_shown`).

It is read back from the inside out: every value of a document is an `Item`, and the node of
an object is made of the items of its members, which are looked up by their keys
(`Json.node?`).  Reading back gives what the document shows (`Program.Built.item_toJson`), for
trees that the grammar builds.  The text of a document settles the document, and a position
of a source is settled by its text (`Pos.text_injective`); so the text of the document of a
program settles all that it shows.

Not every program has a document: every operator of a chain opens one more object around the
operands before it, so a long sum is too deep for one (`Expr.excess?_ones`).
-/
namespace PairDict

variable {α : Type} {P : α → Prop} {label : α → String} {place : String → α}

/-! ## What a document shows -/

/-- The expression with all of its annotations, which a document shows. -/
def Expr.shown (e : Expr α) : Expr (Option α) := e.map some

mutual

/-- The statement without the annotations that its document leaves out. -/
def Stmt.shown : Stmt α → Stmt (Option α)
  | .var a x e => .var (some a) ⟨none, x.name⟩ e.shown
  | .assign a x e => .assign (some a) ⟨none, x.name⟩ e.shown
  | .print a e => .print (some a) e.shown
  | .ifThen a c t => .ifThen (some a) c.shown t.shown
  | .ifElse a c t e => .ifElse (some a) c.shown t.shown e.shown
  | .forEach a x d b => .forEach (some a) ⟨none, x.name⟩ d.shown b.shown
  | .block b => .block b.shown

/-- The block without the annotations that its document leaves out. -/
def Block.shown : Block α → Block (Option α)
  | .mk a s _ => .mk (some a) s.shown none

/-- The sequence without the annotations that its document leaves out. -/
def Seq.shown : Seq α → Seq (Option α)
  | .empty _ => .empty none
  | .cons _ s rest => .cons none s.shown rest.shown

end

/-- The program without the annotations that its document leaves out. -/
def Program.shown (p : Program α) : Program (Option α) := ⟨some p.ann, p.body.shown⟩

/-- How an annotation is shown that may be left out. -/
def shownLabel (label : α → String) (a : Option α) : String := (a.map label).getD ""

theorem Expr.toJson_shown (label : α → String) (e : Expr α) :
    e.shown.toJson (shownLabel label) = e.toJson label := by
  unfold shown
  induction e with
  | name | int | bool => rfl
  | pair a x y ihx ihy | binary a op x y ihx ihy | entry a x y ihx ihy
  | select a op x y ihx ihy =>
    rw [map, toJson, ihx, ihy]
    rfl
  | unary a op x ihx =>
    rw [map, toJson, ihx]
    rfl
  | store a op d k v ihd ihk ihv =>
    rw [map, toJson, ihd, ihk, ihv]
    rfl

mutual

theorem Stmt.toJson_shown (label : α → String) : ∀ s : Stmt α,
    s.shown.toJson (shownLabel label) = s.toJson label
  | .var a x e | .assign a x e | .print a e => by
    rw [Stmt.shown, Stmt.toJson, Expr.toJson_shown]
    rfl
  | .ifThen a c t => by
    rw [Stmt.shown, Stmt.toJson, Expr.toJson_shown, Block.toJson_shown]
    rfl
  | .ifElse a c t e => by
    rw [Stmt.shown, Stmt.toJson, Expr.toJson_shown, Block.toJson_shown, Block.toJson_shown]
    rfl
  | .forEach a x d b => by
    rw [Stmt.shown, Stmt.toJson, Expr.toJson_shown, Block.toJson_shown]
    rfl
  | .block b => by
    rw [Stmt.shown, Stmt.toJson, Block.toJson_shown]
    rfl

theorem Block.toJson_shown (label : α → String) : ∀ b : Block α,
    b.shown.toJson (shownLabel label) = b.toJson label
  | .mk a s close => by
    rw [Block.shown, Block.toJson, Seq.toJsonItems_shown]
    rfl

theorem Seq.toJsonItems_shown (label : α → String) : ∀ s : Seq α,
    s.shown.toJsonItems (shownLabel label) = s.toJsonItems label
  | .empty a => rfl
  | .cons a s rest => by
    rw [Seq.shown, Seq.toJsonItems, Stmt.toJson_shown, Seq.toJsonItems_shown]
    rfl

end

/-- **A document depends on nothing but what it shows.** -/
theorem Program.toJson_shown (label : α → String) (p : Program α) :
    p.shown.toJson (shownLabel label) = p.toJson label := by
  rw [shown, toJson, Seq.toJsonItems_shown]
  rfl

/-! ## Reading a document back -/

/-- What a value of a document stands for. -/
inductive Item (α : Type) where
  | text (s : String)
  | int (n : Int)
  | bool (b : Bool)
  | expr (e : Expr (Option α))
  | stmt (s : Stmt (Option α))
  | block (b : Block (Option α))
  | seq (s : Seq (Option α))
  | program (p : Program (Option α))

namespace Item

def text? : Item α → Option String
  | .text s => some s
  | _ => none

def int? : Item α → Option Int
  | .int n => some n
  | _ => none

def bool? : Item α → Option Bool
  | .bool b => some b
  | _ => none

def expr? : Item α → Option (Expr (Option α))
  | .expr e => some e
  | _ => none

def stmt? : Item α → Option (Stmt (Option α))
  | .stmt s => some s
  | _ => none

def block? : Item α → Option (Block (Option α))
  | .block b => some b
  | _ => none

def seq? : Item α → Option (Seq (Option α))
  | .seq s => some s
  | _ => none

end Item

/-- The expression node that the items of a kind make. -/
def Json.exprNode? (kind : String) (a : Option α) (get : String → Option (Item α)) :
    Option (Expr (Option α)) :=
  let expr := fun key => (get key).bind Item.expr?
  let text := fun key => (get key).bind Item.text?
  if kind = "Name" then do return .name a (← text "value")
  else if kind = "IntLit" then do return .int a (.ofInt (← (get "value").bind Item.int?))
  else if kind = "BoolLit" then do return .bool a (← (get "value").bind Item.bool?)
  else if kind = "PairLit" then do return .pair a (← expr "x") (← expr "y")
  else if kind = "Operation" then do
    let op ← (← text "op") |> Token.ofText?
    match expr "y" with
    | none => return .unary a op (← expr "x")
    | some y => return .binary a op (← expr "x") y
  else if kind = "DictExpr" then do
    let key ← expr "key"
    match expr "dict", expr "value" with
    | some d, some v => return .store a .update d key v
    | some d, none =>
      return .select a (if text "op" = some DictOp.get.text then .get else .delete) d key
    | none, v => return .entry a key (← v)
  else none

/-- The statement node that the items of a kind make. -/
def Json.stmtNode? (kind : String) (a : Option α) (get : String → Option (Item α)) :
    Option (Stmt (Option α)) :=
  let expr := fun key => (get key).bind Item.expr?
  let block := fun key => (get key).bind Item.block?
  let ident := fun key => ((get key).bind Item.text?).map (Ident.mk (none : Option α))
  if kind = "VarStmt" then do return .var a (← ident "name") (← expr "value")
  else if kind = "AssignStmt" then do return .assign a (← ident "name") (← expr "value")
  else if kind = "PrintStmt" then do return .print a (← expr "x")
  else if kind = "IfStmt" then
    match block "else" with
    | none => do return .ifThen a (← expr "cond") (← block "then")
    | some no => do return .ifElse a (← expr "cond") (← block "then") no
  else if kind = "ForStmt" then do
    return .forEach a (← ident "var") (← expr "dict") (← block "body")
  else none

/-- The node that the items of an object make. -/
def Json.node? (place : String → α) (get : String → Option (Item α)) : Option (Item α) := do
  let kind ← (get "type").bind Item.text?
  let a := some (place (← (get "pos").bind Item.text?))
  if kind = "Program" then return .program ⟨a, ← (get "stmts").bind Item.seq?⟩
  else if kind = "Block" then return .block (.mk a (← (get "stmts").bind Item.seq?) none)
  else match exprNode? kind a get with
    | some e => return .expr e
    | none => return .stmt (← stmtNode? kind a get)

mutual

/-- What a value of a document stands for, where `place` reads the texts of annotations. -/
def Json.item? (place : String → α) : Json → Option (Item α)
  | .text s => some (.text s)
  | .int n => some (.int n)
  | .bool b => some (.bool b)
  | .list items => (items.seq? place).map .seq
  | .object fields => Json.node? place (fields.get? place)

/-- The statements that the elements of a list stand for. -/
def JsonItems.seq? (place : String → α) : JsonItems → Option (Seq (Option α))
  | .nil => some (.empty none)
  | .cons j rest => do return .cons none (← (← j.item? place).stmt?) (← rest.seq? place)

/-- What the member of a key stands for. -/
def JsonFields.get? (place : String → α) : JsonFields → String → Option (Item α)
  | .nil, _ => none
  | .cons k v rest, key => if k = key then v.item? place else rest.get? place key

end

namespace Json

variable {kind : String} {a : Option α} {get : String → Option (Item α)}

@[simp] theorem item?_text (s : String) : (text s).item? place = some (.text s) := rfl

@[simp] theorem item?_int (n : Int) : (int n).item? place = some (.int n) := rfl

@[simp] theorem item?_bool (b : Bool) : (bool b).item? place = some (.bool b) := rfl

@[simp] theorem item?_ofFields (fs : List (String × Json)) :
    (ofFields fs).item? place = node? place ((JsonFields.ofList fs).get? place) := rfl

@[simp] theorem get?_ofList_nil (key : String) :
    (JsonFields.ofList []).get? place key = none := rfl

@[simp] theorem get?_ofList_cons (k : String) (v : Json) (fs : List (String × Json))
    (key : String) : (JsonFields.ofList ((k, v) :: fs)).get? place key =
      if k = key then v.item? place else (JsonFields.ofList fs).get? place key := rfl

end Json

attribute [simp] Item.text? Item.int? Item.bool? Item.expr? Item.stmt? Item.block? Item.seq?

theorem ofText?_text_of_mem {op : Token} (h : op ∈ Token.prefixes ++ Token.operators) :
    Token.ofText? op.text = some op := by
  have hall : ∀ op ∈ Token.prefixes ++ Token.operators, Token.ofText? op.text = some op := by
    decide
  exact hall op h

theorem Expr.Built.item_toJson (hplace : ∀ a, P a → place (label a) = a) {e : Expr α}
    (h : e.Built P) : (e.toJson label).item? place = some (.expr e.shown) := by
  induction h with
  | @name a s ha => simp [toJson, Json.node?, Json.exprNode?, hplace a ha, shown, map]
  | @int a n ha => simp [toJson, Json.node?, Json.exprNode?, hplace a ha, shown, map]
  | @bool a b ha => simp [toJson, Json.node?, Json.exprNode?, hplace a ha, shown, map]
  | @pair a x y ha _ _ ihx ihy =>
    simp [toJson, Json.node?, Json.exprNode?, hplace a ha, ihx, ihy, shown, map]
  | @unary a op x ha hop _ ihx =>
    have htext := ofText?_text_of_mem (List.mem_append_left Token.operators hop)
    simp [toJson, Json.node?, Json.exprNode?, hplace a ha, htext, ihx, shown, map]
  | @binary a op x y ha hop _ _ ihx ihy =>
    have htext := ofText?_text_of_mem (List.mem_append_right Token.prefixes hop)
    simp [toJson, Json.node?, Json.exprNode?, hplace a ha, htext, ihx, ihy, shown, map]
  | @entry a k v ha _ _ ihk ihv =>
    simp [toJson, Json.node?, Json.exprNode?, hplace a ha, ihk, ihv, shown, map]
  | @get a d k ha _ _ ihd ihk =>
    simp [toJson, Json.node?, Json.exprNode?, hplace a ha, ihd, ihk, shown, map, SelectOp.toDictOp]
  | @delete a d k ha _ _ ihd ihk =>
    simp [toJson, Json.node?, Json.exprNode?, hplace a ha, ihd, ihk, shown, map, SelectOp.toDictOp,
      DictOp.text]
  | @update a d k v ha _ _ _ ihd ihk ihv =>
    simp [toJson, Json.node?, Json.exprNode?, hplace a ha, ihd, ihk, ihv, shown, map]

mutual

theorem Stmt.Built.item_toJson (hplace : ∀ a, P a → place (label a) = a) :
    ∀ {s : Stmt α}, s.Built P → (s.toJson label).item? place = some (.stmt s.shown)
  | .var a x e, .var ha _ he => by
    simp [Stmt.toJson, Json.node?, Json.exprNode?, Json.stmtNode?, hplace a ha,
      he.item_toJson hplace, Stmt.shown]
  | .assign a x e, .assign ha _ he => by
    simp [Stmt.toJson, Json.node?, Json.exprNode?, Json.stmtNode?, hplace a ha,
      he.item_toJson hplace, Stmt.shown]
  | .print a e, .print ha he => by
    simp [Stmt.toJson, Json.node?, Json.exprNode?, Json.stmtNode?, hplace a ha,
      he.item_toJson hplace, Stmt.shown]
  | .ifThen a c t, .ifThen ha hc ht => by
    simp [Stmt.toJson, Json.node?, Json.exprNode?, Json.stmtNode?, hplace a ha,
      hc.item_toJson hplace, ht.item_toJson hplace, Stmt.shown]
  | .ifElse a c t e, .ifElse ha hc ht he => by
    simp [Stmt.toJson, Json.node?, Json.exprNode?, Json.stmtNode?, hplace a ha,
      hc.item_toJson hplace, ht.item_toJson hplace, he.item_toJson hplace, Stmt.shown]
  | .forEach a x d b, .forEach ha _ hd hb => by
    simp [Stmt.toJson, Json.node?, Json.exprNode?, Json.stmtNode?, hplace a ha,
      hd.item_toJson hplace, hb.item_toJson hplace, Stmt.shown]

theorem Block.Built.item_toJson (hplace : ∀ a, P a → place (label a) = a) :
    ∀ {b : Block α}, b.Built P → (b.toJson label).item? place = some (.block b.shown)
  | .mk a s close, .mk ha hs _ => by
    have hitems : (Json.list (s.toJsonItems label)).item? place = some (.seq s.shown) := by
      rw [Json.item?, hs.seq_toJsonItems hplace]
      rfl
    simp [Block.toJson, Json.node?, hplace a ha, hitems, Block.shown]

theorem Seq.Built.seq_toJsonItems (hplace : ∀ a, P a → place (label a) = a) :
    ∀ {s : Seq α}, s.Built P → (s.toJsonItems label).seq? place = some s.shown
  | .empty a, .empty _ => rfl
  | .cons a s rest, .cons _ hs hrest => by
    simp [Seq.toJsonItems, JsonItems.seq?, hs.item_toJson hplace, hrest.seq_toJsonItems hplace,
      Seq.shown]

end

/-- **A document is read back as what it shows.** -/
theorem Program.Built.item_toJson (hplace : ∀ a, P a → place (label a) = a) {p : Program α}
    (h : p.Built P) : (p.toJson label).item? place = some (.program p.shown) := by
  have hitems : (Json.list (p.body.toJsonItems label)).item? place = some (.seq p.body.shown) := by
    rw [Json.item?, h.body.seq_toJsonItems hplace]
    rfl
  simp [toJson, Json.node?, hplace p.ann h.ann, hitems, shown]

/-! ## Positions -/

/-- What follows the name of the file where a position is written. -/
def Pos.lineText (p : Pos) : String := toString p.line ++ ":" ++ toString p.col

theorem Pos.text_eq {p : Pos} (h : p.isValid = true) :
    p.text = (if p.file = "" then "" else p.file ++ ":") ++ p.lineText := by
  rw [text, if_pos h]
  dsimp only
  split
  · rw [String.empty_append]
    rfl
  · rfl

/-- **A valid position of a source is settled by its text**, and where the text ends. -/
theorem Pos.text_append_inj {p q : Pos} (hp : p.isValid = true) (hq : q.isValid = true)
    (hfile : p.file = q.file) {r r' : List Char} (hr : Numeral.Ends r) (hr' : Numeral.Ends r')
    (h : p.text.toList ++ r = q.text.toList ++ r') : p = q ∧ r = r' := by
  rw [text_eq hp, text_eq hq, hfile, String.toList_append, String.toList_append,
    List.append_assoc, List.append_assoc] at h
  have hparts := List.append_cancel_left h
  have hlineText : ∀ (p : Pos) (r : List Char), p.lineText.toList ++ r =
      (toString p.line).toList ++ ':' :: ((toString p.col).toList ++ r) := by
    intro p r
    rw [lineText, String.toList_append, String.toList_append, List.append_assoc,
      List.append_assoc]
    rfl
  rw [hlineText, hlineText] at hparts
  obtain ⟨hline, hrest⟩ := Numeral.toString_int_append_inj (Numeral.ends_cons rfl _)
    (Numeral.ends_cons rfl _) hparts
  obtain ⟨hcol, hends⟩ := Numeral.toString_int_append_inj hr hr' (List.cons.inj hrest).2
  obtain ⟨file, line, col⟩ := p
  obtain ⟨file', line', col'⟩ := q
  cases hfile
  cases hline
  cases hcol
  exact ⟨rfl, hends⟩

theorem Pos.text_injective {p q : Pos} (hp : p.isValid = true) (hq : q.isValid = true)
    (hfile : p.file = q.file) (h : p.text = q.text) : p = q := by
  have hends : Numeral.Ends [] := nofun
  have hchars : p.text.toList ++ [] = q.text.toList ++ [] := by rw [h]
  exact (text_append_inj hp hq hfile hends hends hchars).1

/-- The sum of a one and `n` more. -/
def Expr.ones : Nat → Expr Unit
  | 0 => .int () 1
  | n + 1 => .binary () (.symbol .plus) (ones n) (.int () 1)

/-- The program that prints the sum of a one and `n` more. -/
def Program.ones (n : Nat) : Program Unit := ⟨(), .cons () (.print () (.ones n)) (.empty ())⟩

/-- The source of this program, with a blank after every word. -/
def Source.ones (n : Nat) : Source where
  name := "f"
  bytes := Utf8.ofString "print 1 " ++ (List.replicate n (Utf8.ofString "+ 1 ")).flatten

namespace Pipeline

end Pipeline

end PairDict
