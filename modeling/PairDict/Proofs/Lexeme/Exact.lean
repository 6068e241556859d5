import Mathlib.Data.List.DropRight
import PairDict.Proofs.Lexeme.Located
import PairDict.Proofs.Lexeme.Order

/-! # Positions count newlines and characters

The position of what stands in a text can be told from the bytes before it: the line counts
the newlines among them, and the column the glyphs behind the last one (`lastLine`).

For a word and for a lexical error the column also counts the **bytes** behind the last
newline.  A byte above 127 stands in a comment only, since no blank and no token has one
(`Pattern.le`), and a comment in front of anything but the end of the text ends its line.  So
no such byte stands on the line before a word (`Munch.plain`).

Put together, the positions of a source are exact, and they increase along its stream
(`Source.positions_exact`).
-/
namespace PairDict

namespace Pos

theorem advance_concat (p : Pos) (gs : List Glyph) (g : Glyph) :
    p.advance (gs ++ [g]) = (p.advance gs).next g :=
  advance_append p gs [g]

theorem next_newline (p : Pos) : p.next (.char '\n') = { p with line := p.line + 1, col := 1 } :=
  rfl

theorem next_of_ne {g : Glyph} (h : g ≠ .char '\n') (p : Pos) :
    p.next g = { p with col := p.col + 1 } :=
  if_neg (Bool.eq_false_iff.1 (Scan.isChar_eq_false h))

end Pos

/-- The characters of a symbol are below 128. -/
theorem Symbol.le_of_mem_text (y : Symbol) : ∀ c ∈ y.text.toList, c.val ≤ 127 := by
  have hall : y.text.toList.all (fun c => decide (c.val ≤ 127)) = true := by
    cases y <;> rfl
  exact fun c hc => decide_eq_true_iff.1 (List.all_eq_true.1 hall c hc)

namespace Scan

/-- The bytes behind the last newline. -/
def lastLine (bs : List UInt8) : List UInt8 := bs.rtakeWhile (· != newline)

/-- The glyphs behind the last newline. -/
def lastGlyphs (gs : List Glyph) : List Glyph := gs.rtakeWhile (· != .char '\n')

/-- All bytes behind the last newline are below 128. -/
def PlainLine (bs : List UInt8) : Prop := ∀ b ∈ lastLine bs, b < 128

variable {bs bs' rest : List UInt8} {b : UInt8} {gs : List Glyph} {g : Glyph} {ws : List Word}

/-! ## The last line -/

theorem lastLine_append (h : newline ∉ bs') : lastLine (bs ++ bs') = lastLine bs ++ bs' := by
  have hall : ∀ b ∈ bs'.reverse, (b != newline) = true := by
    intro b hb
    rw [bne_iff_ne]
    rintro rfl
    exact h (List.mem_reverse.1 hb)
  rw [lastLine, List.rtakeWhile, List.reverse_append, List.takeWhile_append_of_pos hall,
    List.reverse_append, List.reverse_reverse]
  rfl

/-- A newline starts a new line. -/
theorem lastLine_append_newline (bs : List UInt8) : lastLine (bs ++ [newline]) = [] :=
  List.rtakeWhile_concat_neg _ _ _ (by decide)

theorem lastGlyphs_concat (h : g ≠ .char '\n') (gs : List Glyph) :
    lastGlyphs (gs ++ [g]) = lastGlyphs gs ++ [g] :=
  List.rtakeWhile_concat_pos _ _ _ (bne_iff_ne.2 h)

theorem lastGlyphs_concat_newline (gs : List Glyph) :
    lastGlyphs (gs ++ [.char '\n']) = [] :=
  List.rtakeWhile_concat_neg _ _ _ (by decide)

theorem count_of_ne (h : g ≠ .char '\n') : [g].count (.char '\n') = 0 :=
  List.count_eq_zero.2 fun hmem => h (List.mem_singleton.1 hmem).symm

/-- The newlines and the last line are the same in glyphs and in bytes. -/
theorem encode_lastGlyphs (h : Utf8.Decoded gs) :
    Utf8.encode (lastGlyphs gs) = lastLine (Utf8.encode gs) ∧
      gs.count (.char '\n') = (Utf8.encode gs).count newline := by
  induction gs using List.reverseRecOn with
  | nil => exact ⟨rfl, rfl⟩
  | append_singleton gs g ih =>
    obtain ⟨hline, hcount⟩ := ih h.left
    have hbytes : Utf8.encode [g] = g.bytes := List.append_nil _
    rw [Utf8.encode_append, List.count_append, List.count_append, hcount, hbytes]
    by_cases hg : g = .char '\n'
    · subst hg
      rw [lastGlyphs_concat_newline]
      exact ⟨(lastLine_append_newline _).symm, rfl⟩
    · have hfree : newline ∉ g.bytes := newline_not_mem_bytes h.of_append hg
      rw [lastGlyphs_concat hg, lastLine_append hfree, Utf8.encode_append, hline, hbytes,
        count_of_ne hg, List.count_eq_zero.2 hfree]
      exact ⟨rfl, rfl⟩

/-- The characters of the last line can be read off it alone. -/
theorem decode_lastLine (h : Utf8.Decoded gs) :
    Utf8.decode (lastLine (Utf8.encode gs)) = lastGlyphs gs := by
  obtain ⟨before, hbefore⟩ := List.rtakeWhile_suffix (fun g => g != .char '\n') gs
  have hlast : Utf8.Decoded (lastGlyphs gs) := Utf8.Decoded.of_append (hbefore.symm ▸ h)
  rw [← (encode_lastGlyphs h).1, hlast]

theorem advance_start (file : String) (gs : List Glyph) :
    ((Pos.start file).advance gs).line = 1 + gs.count (.char '\n') ∧
      ((Pos.start file).advance gs).col = 1 + (lastGlyphs gs).length := by
  induction gs using List.reverseRecOn with
  | nil => exact ⟨rfl, rfl⟩
  | append_singleton gs g ih =>
    obtain ⟨hline, hcol⟩ := ih
    rw [Pos.advance_concat, List.count_append]
    by_cases hg : g = .char '\n'
    · subst hg
      rw [Pos.next_newline, lastGlyphs_concat_newline, List.count_singleton_self, hline]
      exact ⟨Int.add_assoc _ _ _, rfl⟩
    · rw [Pos.next_of_ne hg, lastGlyphs_concat hg, count_of_ne hg, hcol, List.length_append]
      exact ⟨hline, Int.add_assoc _ _ _⟩

/-- **A position counts the newlines before it, and the characters behind the last one.** -/
theorem advance_start_exact (file : String) (h : Utf8.Decoded gs) :
    ((Pos.start file).advance gs).line = 1 + (Utf8.encode gs).count newline ∧
      ((Pos.start file).advance gs).col =
        1 + (Utf8.decode (lastLine (Utf8.encode gs))).length := by
  obtain ⟨hline, hcol⟩ := advance_start file gs
  rw [decode_lastLine h, ← (encode_lastGlyphs h).2]
  exact ⟨hline, hcol⟩

/-! ## Plain lines -/

theorem plainLine_nil : PlainLine [] := nofun

theorem plainLine_newline (bs : List UInt8) : PlainLine (bs ++ [newline]) := by
  rw [PlainLine, lastLine_append_newline]
  exact nofun

theorem PlainLine.concat (h : PlainLine bs) (hb : b < 128) : PlainLine (bs ++ [b]) := by
  by_cases hnewline : b = newline
  · exact hnewline ▸ plainLine_newline bs
  · rw [PlainLine, lastLine_append fun hmem => hnewline (List.mem_singleton.1 hmem).symm]
    intro x hx
    rcases List.mem_append.1 hx with hx | hx
    · exact h x hx
    · exact List.mem_singleton.1 hx ▸ hb

theorem PlainLine.append (h : PlainLine bs) (hbs' : ∀ b ∈ bs', b < 128) :
    PlainLine (bs ++ bs') := by
  induction bs' generalizing bs with
  | nil => exact (List.append_nil bs).symm ▸ h
  | cons b bs' ih =>
    obtain ⟨hb, hbs'⟩ := List.forall_mem_cons.1 hbs'
    rw [← List.singleton_append, ← List.append_assoc]
    exact ih (h.concat hb) hbs'

/-- Bytes below 128 are a character each. -/
theorem length_decode (h : ∀ b ∈ bs, b < 128) : (Utf8.decode bs).length = bs.length := by
  induction bs with
  | nil => rfl
  | cons b bs ih =>
    obtain ⟨hb, hbs⟩ := List.forall_mem_cons.1 h
    rw [Utf8.decode_cons_of_lt hb, List.length_cons, List.length_cons, ih hbs]

/-! ## What stands before a word -/

/-- Behind a gap the line is as plain as before it: a comment ends its line. -/
theorem Gap.plain {g : List UInt8} (hg : Gap g) (h : PlainLine bs) : PlainLine (bs ++ g) := by
  induction hg generalizing bs with
  | nil => exact (List.append_nil bs).symm ▸ h
  | blank hb _ ih =>
    rw [← List.singleton_append, ← List.append_assoc]
    exact ih (h.concat (lt_of_isBlank hb))
  | @comment body g _ _ ih =>
    have hsplit : bs ++ slash :: slash :: (body ++ newline :: g) =
        bs ++ slash :: slash :: body ++ [newline] ++ g := by
      simp only [List.append_assoc, List.cons_append, List.nil_append]
    rw [hsplit]
    exact ih (plainLine_newline _)

/-- The characters of a name are below 128. -/
theorem le_of_isNameChar {c : Char} (h : isNameChar c = true) : c.val ≤ 127 := by
  simp only [isNameChar, isLetter, isDigit, Bool.or_eq_true, Bool.and_eq_true,
    decide_eq_true_eq] at h
  rcases h with ((⟨-, hle⟩ | ⟨-, hle⟩) | ⟨-, hle⟩) | rfl
  · exact UInt32.le_trans hle (by decide)
  · exact UInt32.le_trans hle (by decide)
  · exact UInt32.le_trans hle (by decide)
  · decide

/-- **The characters of a token are below 128.** -/
theorem Pattern.le {cs : List Char} {t : Token} (h : Pattern cs t) : ∀ c ∈ cs, c.val ≤ 127 := by
  obtain ⟨c, ds, rfl, hs⟩ := h.shape
  cases hs with
  | letters hc hds =>
    have hname : isNameChar c = true := by
      rw [isNameChar, hc]
      rfl
    exact List.forall_mem_cons.2 ⟨le_of_isNameChar hname, fun d hd => le_of_isNameChar (hds d hd)⟩
  | zero hz hnil =>
    subst hz hnil
    rw [List.forall_mem_singleton]
    decide
  | number hc _ hds =>
    have hdigit : ∀ d, isDigit d = true → d.val ≤ 127 := fun d hd => by
      have hname : isNameChar d = true := by
        rw [isNameChar, hd, Bool.or_true]
        rfl
      exact le_of_isNameChar hname
    exact List.forall_mem_cons.2 ⟨hdigit c hc, fun d hd => hdigit d (hds d hd)⟩
  | symbol y _ _ htext => exact htext ▸ y.le_of_mem_text

theorem Pattern.bytes_lt {cs : List Char} {t : Token} (h : Pattern cs t) :
    ∀ b ∈ Utf8.ofString (.ofList cs), b < 128 := by
  intro b hb
  rw [Utf8.ofString, String.toList_ofList] at hb
  obtain ⟨c, hc, hb⟩ := List.mem_flatMap.1 hb
  have hle : c.val ≤ 127 := h.le c hc
  rw [Utf8.encodeChar_of_le hle, List.mem_singleton] at hb
  subst hb
  rw [UInt8.lt_iff_toNat_lt, UInt32.toNat_toUInt8]
  exact Nat.lt_of_le_of_lt (Nat.mod_le _ _) (Nat.lt_succ_of_le (UInt32.le_iff_toNat_le.1 hle))

/-- **Only what ends a text can follow a line that is not plain.** -/
theorem Munch.plain (h : Munch bs ws rest) (hrest : rest ≠ []) :
    ∃ before, before ++ rest = bs ∧ ∀ bs', PlainLine bs' → PlainLine (bs' ++ before) := by
  induction h with
  | stop _ hgap => exact ⟨_, rfl, fun _ => (hgap hrest).plain⟩
  | @word gap w _ _ _ hgap hlongest _ ih =>
    obtain ⟨before, rfl, hplain⟩ := ih hrest
    refine ⟨gap ++ (w.bytes ++ before), ?_, fun bs' h => ?_⟩
    · simp only [List.append_assoc]
    · have hw : ∀ b ∈ w.bytes, b < 128 := by
        have hlt := hlongest.pattern.bytes_lt
        rwa [String.ofList_toList] at hlt
      rw [← List.append_assoc, ← List.append_assoc]
      exact hplain _ ((hgap.plain h).append hw)

end Scan

/-! ## Sources -/

/-- **The positions of a source are exact.**  Whatever its stream comes to, word, lexical
error or end, stands behind the words that were munched before it.  Its line counts the
newlines before it.  Its column counts the glyphs behind the last of them, and anywhere but
at the end of the source the bytes as well.  Along the stream the positions increase, and
the error that a stream ends in is at its position. -/
theorem Source.positions_exact (name : String) (bytes : List UInt8) :
    (∀ u ∈ (Source.mk name bytes none).tokens.suffixes, ∃ ws before after,
      before ++ after = bytes ∧ Spells ws (Source.mk name bytes none).tokens u ∧
      Scan.Munch bytes ws after ∧ u.Begins (Utf8.decode after) ∧
      u.pos.line = 1 + before.count Scan.newline ∧
      u.pos.col = 1 + (Utf8.decode (Scan.lastLine before)).length ∧
      (u.token ≠ .eof → u.pos.col = 1 + (Scan.lastLine before).length)) ∧
    (∀ e, (Source.mk name bytes none).tokens.failure? = some (.lex e) →
      ∃ u ∈ (Source.mk name bytes none).tokens.suffixes, u = .failed (.lex e) ∧ u.pos = e.pos) ∧
    (Source.mk name bytes none).tokens.suffixes.Pairwise fun u v => u.pos.Before v.pos := by
  have htokens : (Source.mk name bytes none).tokens =
      Scan.streamFrom (.start name) (Utf8.decode bytes) := rfl
  refine ⟨fun u hu => ?_, fun e he => ⟨_, TokenStream.failed_mem_suffixes he, rfl, rfl⟩,
    htokens ▸ Scan.streamFrom_pairwise _ _⟩
  obtain ⟨ws, hws⟩ := TokenStream.mem_suffixes_iff.1 hu
  obtain ⟨before, after, hparts, hpos, hbegins, hmunch, hend⟩ :=
    Scan.streamFrom_located (Utf8.decoded_decode bytes) (htokens ▸ hws)
  have hdecoded : Utf8.Decoded (before ++ after) := hparts ▸ Utf8.decoded_decode bytes
  have hbytes : Utf8.encode before ++ Utf8.encode after = bytes := by
    rw [← Utf8.encode_append, hparts, Utf8.encode_decode]
  obtain ⟨hline, hcol⟩ := Scan.advance_start_exact name hdecoded.left
  rw [Utf8.encode_decode] at hmunch
  have hafter : Utf8.decode (Utf8.encode after) = after := hdecoded.of_append
  refine ⟨ws, _, _, hbytes, hws, hmunch, hafter.symm ▸ hbegins, hpos ▸ hline, hpos ▸ hcol,
    fun hne => ?_⟩
  -- what stands there is not the end, so the line before it is plain
  have hrest : Utf8.encode after ≠ [] :=
    Scan.encode_ne_nil fun hnil => hne (hend hnil)
  obtain ⟨before', hbefore', hplain⟩ := hmunch.plain hrest
  obtain rfl : before' = Utf8.encode before :=
    List.append_cancel_right (hbefore'.trans hbytes.symm)
  have hline : Scan.PlainLine (Utf8.encode before) := hplain [] Scan.plainLine_nil
  rw [hpos, hcol, Scan.length_decode hline]

end PairDict
