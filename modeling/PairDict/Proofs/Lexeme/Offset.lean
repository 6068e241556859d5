import Mathlib.Data.List.Induction
import PairDict.Proofs.Lexeme.Munch
import PairDict.Proofs.Lexeme.Scanned

/-! # A scanner moves forward

What a scanner did not read yet is always the last part of its source (`Scanner.Ahead`), so
the scanner stands at an **offset**, the number of bytes before that part (`Scanner.offset`,
`Scanner.Ahead.drop_offset`).

A move passes over a gap and what is read behind it.  Nothing is read behind a gap only if
the move comes to the end of the source or fails, so every other move passes over a glyph, and
a glyph has a byte (`Scanner.Ahead.offset_lt_next`).  Up to the last token before the end all
moves are of this kind (`Scanner.count_le_offset`), and no offset is above the number of bytes;
so there are not more of these tokens than bytes (`Source.length_tokens_le`).
-/
namespace PairDict

theorem Utf8.length_encode_pos {gs : List Glyph} (h : gs ≠ []) : 0 < (encode gs).length :=
  List.length_pos_iff.2 (Scan.encode_ne_nil h)

namespace Scanner

variable {src : Source} {s : Scanner}

/-! ## What a move passes over -/

/-- What is read stands at the front of the text; nothing is read only where the text ends, or
where it fails. -/
theorem read_passes (s : Scanner) : ∃ text, text ++ s.read.unread = s.unread ∧
    (text = [] → s.read.token = .eof ∨ s.read.token = .error) := by
  cases hread : Scan.read s.unread with
  | word w text rest =>
    obtain ⟨happend, hne⟩ := Scan.read_append hread
    rw [read_word hread]
    exact ⟨text, happend, fun hnil => absurd hnil hne⟩
  | tooLarge text =>
    rw [read_tooLarge hread]
    exact ⟨[], rfl, fun _ => .inr rfl⟩
  | nothing =>
    by_cases hnil : s.unread = []
    · rw [read_eof hnil]
      exact ⟨[], rfl, fun _ => .inl rfl⟩
    · rw [read_unrecognized hread hnil]
      exact ⟨[], rfl, fun _ => .inr rfl⟩

/-- **A move passes over the front of the text**, and over none of it only if it comes to the end
or fails. -/
theorem next_passes (s : Scanner) : ∃ text, text ++ s.next.unread = s.unread ∧
    (text = [] → s.next.token = .eof ∨ s.next.token = .error) := by
  cases hfailure : s.failure? with
  | some e =>
    rw [next_of_failed hfailure]
    exact ⟨[], rfl, fun _ => .inr rfl⟩
  | none =>
    rw [next_of_not_failed hfailure]
    obtain ⟨text, happend, hend⟩ := read_passes { s with started := true }.skip
    refine ⟨(Scan.splitGap false s.unread).1 ++ text, ?_, fun hnil => ?_⟩
    · rw [List.append_assoc, happend]
      exact Scan.splitGap_append false s.unread
    · exact hend (List.append_eq_nil_iff.1 hnil).2

/-! ## Offsets -/

/-- The bytes that were not read yet are the last ones of the source. -/
def Ahead (src : Source) (s : Scanner) : Prop := Utf8.encode s.unread <:+ src.bytes

/-- The number of bytes before those that were not read yet. -/
def offset (src : Source) (s : Scanner) : Nat :=
  src.bytes.length - (Utf8.encode s.unread).length

theorem offset_le (src : Source) (s : Scanner) : s.offset src ≤ src.bytes.length :=
  Nat.sub_le _ _

/-- A scanner has before it what follows its offset. -/
theorem Ahead.drop_offset (h : s.Ahead src) :
    src.bytes.drop (s.offset src) = Utf8.encode s.unread :=
  (List.suffix_iff_eq_drop.1 h).symm

theorem ahead_ofSource (src : Source) : (ofSource src).Ahead src :=
  ⟨[], Utf8.encode_decode src.bytes⟩

theorem Ahead.next (h : s.Ahead src) : s.next.Ahead src := by
  obtain ⟨text, happend, -⟩ := s.next_passes
  have hsuffix : Utf8.encode s.next.unread <:+ Utf8.encode s.unread := by
    rw [← happend, Utf8.encode_append]
    exact List.suffix_append _ _
  exact hsuffix.trans h

theorem Ahead.after (h : s.Ahead src) (calls : List Call) : (s.after calls).Ahead src := by
  induction calls generalizing s with
  | nil => exact h
  | cons call calls ih =>
    cases call with
    | next => exact ih h.next
    | _ => exact ih h

/-- **A move reads at least one byte, unless it comes to the end or fails.** -/
theorem Ahead.offset_lt_next (h : s.Ahead src)
    (hend : ¬ (s.next.token = .eof ∨ s.next.token = .error)) :
    s.offset src < s.next.offset src := by
  obtain ⟨text, happend, hnil⟩ := s.next_passes
  have hpos : 0 < (Utf8.encode text).length := Utf8.length_encode_pos fun h => hend (hnil h)
  have hle : (Utf8.encode s.unread).length ≤ src.bytes.length := h.length_le
  rw [← happend, Utf8.encode_append, List.length_append] at hle
  rw [offset, offset, ← happend, Utf8.encode_append, List.length_append]
  omega

/-! ## The end is reached -/

/-- The end is reached by as many moves as there are tokens, and never left. -/
theorem after_end_iff (src : Source) (calls : List Call) (h : 0 < calls.count .next) :
    ((ofSource src).after calls).token = .eof ∨ ((ofSource src).after calls).token = .error ↔
      src.tokens.suffixes.length ≤ calls.count .next := by
  obtain ⟨k, hk⟩ : ∃ k, calls.count .next = k + 1 :=
    Nat.exists_eq_succ_of_ne_zero (Nat.ne_of_gt h)
  have hagrees := (agrees_ofSource src).after calls
  rw [hk, Cursor.iterate_next] at hagrees
  have htoken : ((ofSource src).after calls).token = (TokenStream.tail^[k] src.tokens).token :=
    hagrees.token
  rw [htoken, TokenStream.end_iff (src.tokens.getElem?_suffixes k), TokenStream.length_suffixes, hk]
  omega

theorem after_concat (s : Scanner) (calls : List Call) (call : Call) :
    s.after (calls ++ [call]) = ((s.after calls).call call).1 := by
  rw [after, List.foldl_append]
  rfl

/-- **Until it comes to the end, a scanner has read as many bytes as it has made moves**,
whatever it is asked in between. -/
theorem count_le_offset (src : Source) (calls : List Call)
    (h : calls.count .next ≤ src.tokens.length) :
    calls.count .next ≤ ((ofSource src).after calls).offset src := by
  induction calls using List.reverseRecOn with
  | nil => exact Nat.zero_le _
  | append_singleton calls call ih =>
    cases call with
    | next =>
      have hcount : (calls ++ [Call.next]).count .next = calls.count .next + 1 := by
        rw [List.count_append, List.count_singleton_self]
      have hnoend := (after_end_iff src (calls ++ [.next]) (by omega)).not.2
        (by rw [TokenStream.length_suffixes]; omega)
      rw [after_concat] at hnoend ⊢
      have hlt := ((ahead_ofSource src).after calls).offset_lt_next hnoend
      have hle := ih (by omega)
      rw [hcount]
      exact Nat.lt_of_le_of_lt hle hlt
    | _ =>
      rw [List.count_append] at h ⊢
      rw [after_concat]
      exact ih h

end Scanner

/-- **There are not more tokens before the end of a source than bytes.** -/
theorem Source.length_tokens_le (src : Source) : src.tokens.length ≤ src.bytes.length := by
  have hle := Scanner.count_le_offset src (List.replicate src.tokens.length .next)
  rw [List.count_replicate_self] at hle
  exact Nat.le_trans (hle (Nat.le_refl _)) (Scanner.offset_le src _)

end PairDict
