import PairDict.Proofs.Lexeme.Gap
import PairDict.Proofs.Lexeme.Longest

/-! # Maximal munch, without loss

A byte string is cut into gaps and words, one after the other: `Munch bytes ws rest` says
that `bytes` is a gap, the text of a word, a gap, the text of a word, and so on, and at last
a gap and the bytes `rest`; that the words in between are `ws`; and that each of them is
spelled by the **longest** token which stands where it starts.

The reader cuts every byte string in this way (`streamFrom_munches`), whatever its bytes
are, and stops where nothing is left, or where no token stands, or where the longest one is
a number that is too large.
-/
namespace PairDict

namespace Scan

/-- The text stands at the front of the bytes. -/
def InBytes (bs : List UInt8) (cs : List Char) : Prop := Utf8.ofString (.ofList cs) <+: bs

/-- In glyphs that were read, the same texts stand at the front as in their bytes. -/
theorem inBytes_encode {gs : List Glyph} (h : Utf8.Decoded gs) :
    InBytes (Utf8.encode gs) = Starts gs :=
  funext fun cs => propext (Utf8.prefix_encode_iff h cs)

/-- The bytes are gaps and the texts of the words `ws`, each of them the longest token where
it stands, and `rest` after the last gap. -/
inductive Munch : List UInt8 → List Word → List UInt8 → Prop where
  | stop {gap rest} : LastGap gap → (rest ≠ [] → Gap gap) → ¬ AtGap (InBytes rest) →
      Munch (gap ++ rest) [] rest
  | word {gap w bs ws rest} : Gap gap → Longest (InBytes (w.bytes ++ bs)) w.literal.toList w.token →
      Munch bs ws rest → Munch (gap ++ (w.bytes ++ bs)) (w :: ws) rest

/-- Whether a byte ends a line. -/
def endsLine (b : UInt8) : Bool := b = '\n'.toUInt8 || b = '\r'.toUInt8

/-- The bytes before the end of the line. -/
def line (bs : List UInt8) : List UInt8 := bs.takeWhile fun b => !endsLine b

/-- Why no word can be read from `rest`, and the bytes that are rejected. -/
inductive Rejects (rest : List UInt8) : List UInt8 → Prop where
  /-- No token stands there: the line is rejected. -/
  | unrecognized : (∀ cs t, Pattern cs t → ¬ InBytes rest cs) → Rejects rest (line rest)
  /-- The longest token is a number above the largest: the number is rejected. -/
  | tooLarge {cs} : Longest (InBytes rest) cs .num → Nat.pow 2 63 ≤ Nat.ofDigitChars 10 cs 0 →
      Rejects rest (Utf8.ofString (.ofList cs))

/-- How a stream ends when the bytes `rest` are left. -/
inductive Ending (rest : List UInt8) : Option ScanError → Prop where
  | eof : rest = [] → Ending rest none
  | lex {e : LexError} : rest ≠ [] → e.rejected ≠ [] → Rejects rest e.rejected →
      Ending rest (some (.lex e))

/-- Only the two characters that end a line have a byte that does. -/
theorem endsLine_of_mem_bytes {g : Glyph} {gs : List Glyph} (h : Utf8.Decoded (g :: gs)) {b : UInt8}
    (hb : b ∈ g.bytes) (hends : endsLine b = true) : g = .char '\n' ∨ g = .char '\r' := by
  simp only [endsLine, Bool.or_eq_true, decide_eq_true_eq] at hends
  rcases hends with rfl | rfl
  · exact .inl (h.eq_char_of_mem_bytes List.mem_cons_self hb (by decide))
  · exact .inr (h.eq_char_of_mem_bytes List.mem_cons_self hb (by decide))

theorem restOfLine_cons {g : Glyph} (hn : g ≠ .char '\n') (hr : g ≠ .char '\r') (gs : List Glyph) :
    restOfLine (g :: gs) = g :: restOfLine gs := by
  simp only [restOfLine, List.takeWhile_cons, isChar_eq_false hn, isChar_eq_false hr,
    Bool.not_false, Bool.and_self, if_true]

/-- The rest of a line is the same in glyphs and in bytes. -/
theorem encode_restOfLine : ∀ (gs : List Glyph), Utf8.Decoded gs →
    Utf8.encode (restOfLine gs) = line (Utf8.encode gs)
  | [], _ => rfl
  | g :: gs, h => by
    have ih := encode_restOfLine gs h.tail
    by_cases hg : g = .char '\n' ∨ g = .char '\r'
    · rcases hg with rfl | rfl <;> rfl
    · have hbytes : ∀ b ∈ g.bytes, (!endsLine b) = true := by
        intro b hb
        rw [Bool.not_eq_true']
        exact Bool.eq_false_iff.2 fun hends => hg (endsLine_of_mem_bytes h hb hends)
      rw [not_or] at hg
      rw [restOfLine_cons hg.1 hg.2, line, Utf8.encode_cons, Utf8.encode_cons,
        List.takeWhile_append_of_pos hbytes, ih, line]

theorem bytes_ne_nil (g : Glyph) : g.bytes ≠ [] := by
  cases g with
  | char c => exact String.utf8EncodeChar_ne_nil
  | stray b => exact List.cons_ne_nil b []

/-- Where no gap goes on, the line is not at its end. -/
theorem line_ne_nil {gs : List Glyph} (h : Utf8.Decoded gs) (hne : gs ≠ [])
    (hstop : ¬ AtGap (Starts gs)) : line (Utf8.encode gs) ≠ [] := by
  cases gs with
  | nil => exact absurd rfl hne
  | cons g gs =>
    have hg : ∀ c, isBlank c = true → g ≠ .char c := by
      rintro c hc rfl
      exact hstop (.inl ⟨c, hc, gs, rfl⟩)
    rw [← encode_restOfLine _ h, restOfLine_cons (hg '\n' (by decide)) (hg '\r' (by decide)),
      Utf8.encode_cons]
    exact List.append_ne_nil_of_left_ne_nil (bytes_ne_nil g) _

/-! ## The reader -/

section Stream

variable {pos : Pos} {gs text rest : List Glyph} {w : Word}

/-- The stream of a text goes by what is read behind its gap. -/
theorem streamFrom_eq (pos : Pos) (gs : List Glyph) :
    streamFrom pos gs =
      match read (splitGap false gs).2 with
      | .word w text rest => .cons ⟨w, pos.advance (splitGap false gs).1⟩
          (streamFrom ((pos.advance (splitGap false gs).1).advance text) rest)
      | .tooLarge text => .failed (.lex (.outOfRange (pos.advance (splitGap false gs).1)
          (.ofList (spelling text))))
      | .nothing =>
        match (splitGap false gs).2 with
        | [] => .eof (pos.advance (splitGap false gs).1)
        | rest => .failed (.lex (.unrecognized (pos.advance (splitGap false gs).1)
            (restOfLine rest))) := by
  rw [streamFrom]
  split
  · next h => rw [h]
  · next h => rw [h]
  · next h => exact h ▸ rfl

theorem streamFrom_word (h : read (splitGap false gs).2 = .word w text rest) :
    streamFrom pos gs = .cons ⟨w, pos.advance (splitGap false gs).1⟩
      (streamFrom ((pos.advance (splitGap false gs).1).advance text) rest) := by
  rw [streamFrom_eq, h]

theorem streamFrom_tooLarge (h : read (splitGap false gs).2 = .tooLarge text) :
    streamFrom pos gs = .failed (.lex (.outOfRange (pos.advance (splitGap false gs).1)
      (.ofList (spelling text)))) := by
  rw [streamFrom_eq, h]

theorem streamFrom_nothing (h : read (splitGap false gs).2 = .nothing) :
    streamFrom pos gs = match (splitGap false gs).2 with
      | [] => .eof (pos.advance (splitGap false gs).1)
      | rest =>
        .failed (.lex (.unrecognized (pos.advance (splitGap false gs).1) (restOfLine rest))) := by
  rw [streamFrom_eq, h]

theorem streamFrom_eof (h : (splitGap false gs).2 = []) :
    streamFrom pos gs = .eof (pos.advance (splitGap false gs).1) := by
  have hread : read (splitGap false gs).2 = .nothing := by
    rw [h]
    rfl
  rw [streamFrom_nothing hread, h]

end Stream

theorem encode_spelled (w : Word) (gs : List Glyph) :
    Utf8.encode (w.literal.toList.map .char ++ gs) = w.bytes ++ Utf8.encode gs := by
  rw [Utf8.encode_append, Utf8.encode_map_char, String.ofList_toList, Word.bytes]

/-- What the reader makes of a text, of which `rest` is left in the end. -/
def Munches (gs : List Glyph) (s : TokenStream) : Prop :=
  ∃ rest, Munch (Utf8.encode gs) (s.lexemes.map Lexeme.word) rest ∧ Ending rest s.failure?

/-- Where no word is read, the text stops behind its gap. -/
theorem munch_stop {gap left : List Glyph} (hleft : Utf8.Decoded left) (h : GapFound gap left) :
    Munch (Utf8.encode (gap ++ left)) [] (Utf8.encode left) := by
  obtain ⟨hlast, hgap, hstop⟩ := h
  rw [Utf8.encode_append]
  refine .stop hlast (fun hne => hgap fun heq => hne (heq ▸ rfl)) ?_
  rw [inBytes_encode hleft]
  exact hstop

/-- A word that is read is munched with the gap before it. -/
theorem munch_word {gs text rest : List Glyph} {w : Word} {ws : List Word} {left : List UInt8}
    (h : Utf8.Decoded gs) (hread : read (splitGap false gs).2 = .word w text rest)
    (hmunch : Munch (Utf8.encode rest) ws left) : Munch (Utf8.encode gs) (w :: ws) left := by
  have hfound : GapFound (splitGap false gs).1 (splitGap false gs).2 := (splitGap_spec gs h).1
  have happend : (splitGap false gs).1 ++ (splitGap false gs).2 = gs := splitGap_append false gs
  have hfinds := read_finds (splitGap false gs).2
  rw [← inBytes_encode (Utf8.Decoded.of_append (happend.symm ▸ h)), hread] at hfinds
  obtain ⟨hparts, hne⟩ := read_append hread
  cases hfinds with
  | word hlongest =>
    have hleftne : (splitGap false gs).2 ≠ [] := fun hnil => by
      rw [hnil] at hparts
      exact hne (List.append_eq_nil_iff.1 hparts).1
    rw [← hparts, encode_spelled] at hlongest
    have hword := Munch.word (hfound.2.1 hleftne) hlongest hmunch
    rwa [← encode_spelled, hparts, ← Utf8.encode_append, happend] at hword

theorem encode_ne_nil {gs : List Glyph} (hne : gs ≠ []) : Utf8.encode gs ≠ [] := by
  cases gs with
  | nil => exact absurd rfl hne
  | cons g gs =>
    rw [Utf8.encode_cons]
    exact List.append_ne_nil_of_left_ne_nil (bytes_ne_nil g) _

/-- **The reader cuts every text into gaps and longest tokens.** -/
theorem streamFrom_munches (pos : Pos) (gs : List Glyph) (h : Utf8.Decoded gs) :
    Munches gs (streamFrom pos gs) := by
  induction hn : gs.length using Nat.strongRecOn generalizing pos gs with
  | ind n ih =>
    have hfound : GapFound (splitGap false gs).1 (splitGap false gs).2 := (splitGap_spec gs h).1
    have happend : (splitGap false gs).1 ++ (splitGap false gs).2 = gs := splitGap_append false gs
    have hleft : Utf8.Decoded (splitGap false gs).2 := Utf8.Decoded.of_append (happend.symm ▸ h)
    have hstop : Munch (Utf8.encode gs) [] (Utf8.encode (splitGap false gs).2) := by
      have hstop := munch_stop hleft hfound
      rwa [happend] at hstop
    have hfinds := read_finds (splitGap false gs).2
    rw [← inBytes_encode hleft] at hfinds
    cases hread : read (splitGap false gs).2 with
    | word w text rest =>
      have hlt : rest.length < n :=
        hn ▸ Nat.lt_of_lt_of_le (length_rest_lt hread) (length_splitGap_le false gs)
      have hrest : Utf8.Decoded rest :=
        Utf8.Decoded.of_append ((read_append hread).1.symm ▸ hleft)
      obtain ⟨bytes, hmunch, hend⟩ := ih rest.length hlt
        ((pos.advance (splitGap false gs).1).advance text) rest hrest rfl
      rw [streamFrom_word hread]
      exact ⟨bytes, munch_word h hread hmunch, hend⟩
    | tooLarge text =>
      rw [hread] at hfinds
      cases hfinds with
      | @tooLarge cs hlongest hlarge =>
        have hleftne : (splitGap false gs).2 ≠ [] := by
          intro hnil
          rw [hnil] at hread
          cases hread
        have hne : Utf8.ofString (.ofList cs) ≠ [] := by
          obtain ⟨c, ds, rfl, -⟩ := hlongest.pattern.shape
          rw [← Utf8.encode_map_char]
          exact encode_ne_nil (List.cons_ne_nil _ _)
        rw [streamFrom_tooLarge hread, spelling_map_char]
        exact ⟨_, hstop, .lex (encode_ne_nil hleftne) hne (.tooLarge hlongest hlarge)⟩
    | nothing =>
      rw [hread] at hfinds
      cases hfinds with
      | nothing hnone =>
        rw [streamFrom_nothing hread]
        split
        · next hnil =>
          rw [hnil] at hstop
          exact ⟨[], hstop, .eof rfl⟩
        · next rest hnil =>
          have hne := line_ne_nil hleft hnil hfound.2.2
          have hrejects := Rejects.unrecognized hnone
          rw [← encode_restOfLine _ hleft] at hne hrejects
          exact ⟨_, hstop, .lex (encode_ne_nil hnil) hne hrejects⟩

end Scan

/-! ## Sources -/

/-- **The words of a source are its longest tokens, and nothing of it is lost.**  Every
byte string is cut into gaps, the texts of the words that are read from it, each of them
the longest token where it starts, and a rest; it is read to the end if the rest is empty;
and if it is not, then no token stands at its front, and the rest of the line is rejected,
or the longest one is a number above the largest, which is rejected. -/
theorem Source.tokens_munch (name : String) (bytes : List UInt8) :
    ∃ rest,
      Scan.Munch bytes ((Source.mk name bytes none).tokens.lexemes.map Lexeme.word) rest ∧
      ((Source.mk name bytes none).tokens.failure? = none ↔ rest = []) ∧
      ((∃ e, (Source.mk name bytes none).tokens.failure? = some (.lex e)) ↔
        rest ≠ [] ∧ ∃ rejected, Scan.Rejects rest rejected) ∧
      ∀ f, (Source.mk name bytes none).tokens.failure? = some f →
        ∃ e, f = .lex e ∧ e.rejected ≠ [] ∧ Scan.Rejects rest e.rejected := by
  obtain ⟨rest, hmunch, hend⟩ :=
    Scan.streamFrom_munches (.start name) (Utf8.decode bytes) (Utf8.decoded_decode bytes)
  rw [Utf8.encode_decode] at hmunch
  refine ⟨rest, hmunch, ?_⟩
  have htokens : (Source.mk name bytes none).tokens =
      Scan.streamFrom (.start name) (Utf8.decode bytes) := rfl
  rw [htokens]
  generalize (Scan.streamFrom (.start name) (Utf8.decode bytes)).failure? = failure at hend
  cases hend with
  | eof hrest =>
    refine ⟨iff_of_true rfl hrest, iff_of_false ?_ fun h => h.1 hrest, nofun⟩
    rintro ⟨e, h⟩
    cases h
  | lex hrest hne hrejects =>
    refine ⟨iff_of_false nofun hrest, iff_of_true ⟨_, rfl⟩ ⟨hrest, _, hrejects⟩, ?_⟩
    rintro _ ⟨⟩
    exact ⟨_, rfl, hne, hrejects⟩

end PairDict
