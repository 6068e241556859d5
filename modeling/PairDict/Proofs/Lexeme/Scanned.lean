import Mathlib.Logic.Function.Iterate
import PairDict.Lexeme.Scanner
import PairDict.Proofs.Lexeme.Layout
import PairDict.Proofs.Lexeme.Located
import PairDict.Proofs.Lexeme.Order

/-! # A scanner is a cursor over its tokens

A scanner keeps what it found in registers, and a branch of `Scanner.next` writes only some
of them.  That no register is ever read when it is out of date is said by comparing the
scanner with a cursor over the stream of its source: the two **agree** if every question has
the same answer for both, and the text which the scanner did not read yet holds what is
ahead of the cursor (`Scanner.Agrees`).

* One move keeps them in agreement (`Agrees.next`), and no other call changes anything, so
  after any calls the scanner agrees with the cursor after as many moves (`Agrees.after`).
* After `k` moves a cursor stands on the `k`-th token, and on the last one for ever
  (`Cursor.iterate_next`, `TokenStream.getElem?_suffixes`), and this is the token that the
  scanner reports (`exists_reports_after`).
* A call is answered by what the scanner reports at that moment, and a move by the kind of the
  token that it comes to (`answers_of_next`).

So a scanner answers by the list of its tokens and by the number of moves alone
(`Scanner.answers_by_moves`).
-/
namespace PairDict

/-- A word is no end of a stream. -/
theorem Word.token_ne_end (w : Word) : ¬ (w.token = .eof ∨ w.token = .error) := by
  cases w <;> exact nofun

/-! ## Moves of a cursor -/

namespace TokenStream

variable {s t : TokenStream}

theorem length_suffixes (s : TokenStream) : s.suffixes.length = s.length + 1 := by
  induction s with
  | eof p => rfl
  | failed e => rfl
  | cons l t ih => exact congrArg (· + 1) ih

theorem iterate_tail_eof (p : Pos) (k : Nat) : tail^[k] (.eof p) = .eof p :=
  Function.iterate_fixed rfl k

theorem iterate_tail_failed (e : ScanError) (k : Nat) : tail^[k] (.failed e) = .failed e :=
  Function.iterate_fixed rfl k

/-- What is left after `k` lexemes is the `k`-th suffix, or the last one. -/
theorem getElem?_suffixes (s : TokenStream) (k : Nat) :
    s.suffixes[min k s.length]? = some (tail^[k] s) := by
  induction s generalizing k with
  | eof p =>
    rw [length_eof, Nat.min_zero, iterate_tail_eof]
    rfl
  | failed e =>
    rw [length_failed, Nat.min_zero, iterate_tail_failed]
    rfl
  | cons l t ih =>
    cases k with
    | zero =>
      rw [Nat.zero_min]
      rfl
    | succ k =>
      rw [length_cons, Nat.succ_min_succ, Function.iterate_succ_apply]
      exact ih k

/-- The failure of a stream is met when its lexemes are passed, and not before. -/
theorem failure?_iterate_tail (s : TokenStream) (k : Nat) :
    (Cursor.on (tail^[k] s)).failure? = if s.length ≤ k then s.failure? else none := by
  induction s generalizing k with
  | eof p =>
    rw [iterate_tail_eof, length_eof, if_pos (Nat.zero_le k)]
    rfl
  | failed e =>
    rw [iterate_tail_failed, length_failed, if_pos (Nat.zero_le k)]
    rfl
  | cons l t ih =>
    cases k with
    | zero =>
      rw [length_cons, if_neg (Nat.not_succ_le_zero _)]
      rfl
    | succ k =>
      rw [Function.iterate_succ_apply, length_cons, if_congr Nat.succ_le_succ_iff rfl rfl]
      exact ih k

end TokenStream

namespace Cursor

theorem iterate_next_on (s : TokenStream) (k : Nat) :
    next^[k] (.on s) = .on (TokenStream.tail^[k] s) := by
  induction k generalizing s with
  | zero => rfl
  | succ k ih =>
    rw [Function.iterate_succ_apply, Function.iterate_succ_apply]
    exact ih s.tail

theorem iterate_next (s : TokenStream) (k : Nat) :
    next^[k + 1] (.before s) = .on (TokenStream.tail^[k] s) := by
  rw [Function.iterate_succ_apply]
  exact iterate_next_on s k

/-- Where a cursor has failed it stays. -/
theorem next_of_failure {c : Cursor} {e : ScanError} (h : c.failure? = some e) :
    c.next = .on (.failed e) ∧ c.literal = "" ∧ c.pos = e.pos := by
  rcases c with (_ | (_ | ⟨file, cause⟩) | _) | (_ | _ | _)
  · cases h
  · cases h
  · cases h
    exact ⟨rfl, rfl, rfl⟩
  · cases h
  · cases h
  · cases h
    exact ⟨rfl, rfl, rfl⟩
  · cases h

/-- No text is a source that could not be read. -/
theorem failure?_before_streamFrom {gs : List Glyph} (pos : Pos) (h : Utf8.Decoded gs) :
    (Cursor.before (Scan.streamFrom pos gs)).failure? = none := by
  have hbegins := (Scan.streamFrom_begins pos h).2
  cases hs : Scan.streamFrom pos gs with
  | eof p => rfl
  | cons l t => rfl
  | failed e =>
    cases e with
    | lex e => rfl
    | read file cause =>
      rw [hs] at hbegins
      exact hbegins.elim

section Values

variable {t : TokenStream}

theorem exists_num (h : t.token = .num) : ∃ n p r, t = .cons ⟨.num n, p⟩ r := by
  rcases t with _ | _ | ⟨⟨⟨⟩, p⟩, r⟩ <;> cases h
  exact ⟨_, p, r, rfl⟩

theorem exists_bool (h : t.token = .bool) : ∃ b p r, t = .cons ⟨.bool b, p⟩ r := by
  rcases t with _ | _ | ⟨⟨⟨⟩, p⟩, r⟩ <;> cases h
  exact ⟨_, p, r, rfl⟩

theorem int_on_of_ne (h : t.token ≠ .num) :
    (on t).int = .error (.wrongToken .num t.token) := by
  rcases t with _ | _ | ⟨⟨w, p⟩, r⟩
  · rfl
  · rfl
  · cases w <;> first | rfl | exact absurd rfl h

theorem bool_on_of_ne (h : t.token ≠ .bool) :
    (on t).bool = .error (.wrongToken .bool t.token) := by
  rcases t with _ | _ | ⟨⟨w, p⟩, r⟩
  · rfl
  · rfl
  · cases w <;> first | rfl | exact absurd rfl h

end Values

end Cursor

namespace Scanner

variable {s : Scanner} {c : Cursor}

/-! ## Agreement -/

/-- The scanner answers as the cursor does, and has before it what the cursor has. -/
structure Agrees (s : Scanner) (c : Cursor) : Prop where
  token : s.token = c.token
  literal : s.literal = c.literal
  pos : s.pos = c.pos
  int : s.int = c.int
  bool : s.bool = c.bool
  failure : s.failure? = c.failure?
  /-- Unless it failed, what it reads next is what the cursor moves to. -/
  ahead : s.failure? = none → c.next = .on (Scan.streamFrom s.here s.unread)

theorem int_of_not_started (h : s.started = false) : s.int = .error .nothingRead := by
  rw [int, check, if_pos h]
  rfl

theorem bool_of_not_started (h : s.started = false) : s.bool = .error .nothingRead := by
  rw [bool, check, if_pos h]
  rfl

/-- A source that was not read yet. -/
theorem agrees_ofSource (src : Source) : (ofSource src).Agrees (.before src.tokens) := by
  obtain ⟨name, bytes, failure⟩ := src
  have hint := int_of_not_started (s := ofSource ⟨name, bytes, failure⟩) rfl
  have hbool := bool_of_not_started (s := ofSource ⟨name, bytes, failure⟩) rfl
  cases failure with
  | none =>
    have hnone := Cursor.failure?_before_streamFrom (.start name) (Utf8.decoded_decode bytes)
    exact ⟨rfl, rfl, rfl, hint, hbool, hnone.symm, fun _ => rfl⟩
  | some cause => exact ⟨rfl, rfl, rfl, hint, hbool, rfl, nofun⟩

theorem int_of_ne (hstarted : s.started = true) (h : s.token ≠ .num) :
    s.int = .error (.wrongToken .num s.token) := by
  rw [int, check, if_neg (Bool.eq_false_iff.not_left.2 hstarted), if_pos h]
  rfl

theorem int_of_eq (hstarted : s.started = true) (h : s.token = .num) : s.int = .ok s.number := by
  rw [int, check, if_neg (Bool.eq_false_iff.not_left.2 hstarted), if_neg (not_not_intro h)]
  rfl

theorem bool_of_ne (hstarted : s.started = true) (h : s.token ≠ .bool) :
    s.bool = .error (.wrongToken .bool s.token) := by
  rw [bool, check, if_neg (Bool.eq_false_iff.not_left.2 hstarted), if_pos h]
  rfl

theorem bool_of_eq (hstarted : s.started = true) (h : s.token = .bool) :
    s.bool = .ok s.truth := by
  rw [bool, check, if_neg (Bool.eq_false_iff.not_left.2 hstarted), if_neg (not_not_intro h)]
  rfl

/-- Once it was started, a scanner answers as a cursor does if its registers hold what stands
under the cursor; a register for values counts only if the token has one. -/
theorem agrees_on {t : TokenStream} (hstarted : s.started = true) (htoken : s.token = t.token)
    (hliteral : s.literal = t.literal) (hpos : s.pos = t.pos)
    (hnumber : ∀ n p r, t = .cons ⟨.num n, p⟩ r → s.number = n)
    (htruth : ∀ b p r, t = .cons ⟨.bool b, p⟩ r → s.truth = b)
    (hfailure : s.failure? = (Cursor.on t).failure?)
    (hahead : s.failure? = none → t.tail = Scan.streamFrom s.here s.unread) :
    s.Agrees (.on t) where
  token := htoken
  literal := hliteral
  pos := hpos
  int := by
    by_cases h : t.token = .num
    · obtain ⟨n, p, r, rfl⟩ := Cursor.exists_num h
      rw [int_of_eq hstarted (htoken.trans h), hnumber n p r rfl]
      rfl
    · rw [int_of_ne hstarted (htoken ▸ h), Cursor.int_on_of_ne h, htoken]
  bool := by
    by_cases h : t.token = .bool
    · obtain ⟨b, p, r, rfl⟩ := Cursor.exists_bool h
      rw [bool_of_eq hstarted (htoken.trans h), htruth b p r rfl]
      rfl
    · rw [bool_of_ne hstarted (htoken ▸ h), Cursor.bool_on_of_ne h, htoken]
  failure := hfailure
  ahead h := congrArg Cursor.on (hahead h)

/-! ## Moves -/

theorem read_word {w : Word} {text rest : List Glyph}
    (h : Scan.read s.unread = .word w text rest) : s.read = s.take w text rest := by
  rw [read, h]

theorem read_tooLarge {text : List Glyph} (h : Scan.read s.unread = .tooLarge text) :
    s.read = s.fail (.outOfRange s.pos (.ofList (Scan.spelling text))) := by
  rw [read, h]

theorem read_eof (h : s.unread = []) : s.read = { s with token := .eof } := by
  have hread : Scan.read s.unread = .nothing := by
    rw [h]
    rfl
  rw [read, hread, h]

theorem read_unrecognized (h : Scan.read s.unread = .nothing) (hne : s.unread ≠ []) :
    s.read = s.fail (.unrecognized s.pos (Scan.restOfLine s.unread)) := by
  rw [read, h]
  cases hunread : s.unread with
  | nil => exact absurd hunread hne
  | cons g gs => rfl

/-- A scanner that fails where the stream does. -/
theorem agrees_fail (hstarted : s.started = true) (e : LexError) (hpos : s.pos = e.pos) :
    (s.fail e).Agrees (.on (.failed (.lex e))) :=
  agrees_on hstarted rfl rfl hpos nofun nofun rfl nofun

/-- What is read behind a gap is what the stream of the text starts with. -/
theorem agrees_read (hfailure : s.failure? = none) (hstarted : s.started = true) :
    s.skip.read.Agrees (.on (Scan.streamFrom s.here s.unread)) := by
  have hfinds := Scan.read_finds (Scan.splitGap false s.unread).2
  cases hread : Scan.read (Scan.splitGap false s.unread).2 with
  | word w text rest =>
    rw [hread] at hfinds
    cases hfinds with
    | word =>
      have hliteral : String.ofList (Scan.spelling (w.literal.toList.map .char)) = w.literal := by
        rw [Scan.spelling_map_char, String.ofList_toList]
      rw [Scan.streamFrom_word hread, read_word (s := s.skip) hread]
      refine agrees_on hstarted rfl hliteral rfl ?_ ?_ hfailure fun _ => rfl
      · rintro n p r ⟨⟩
        rfl
      · rintro b p r ⟨⟩
        rfl
  | tooLarge text =>
    rw [Scan.streamFrom_tooLarge hread, read_tooLarge (s := s.skip) hread]
    exact agrees_fail (s := s.skip) hstarted _ rfl
  | nothing =>
    rw [Scan.streamFrom_nothing hread]
    split
    · next hnil =>
      rw [read_eof (s := s.skip) hnil]
      refine agrees_on hstarted rfl rfl rfl (by rintro _ _ _ ⟨⟩) (by rintro _ _ _ ⟨⟩) hfailure
        fun _ => ?_
      change _ = Scan.streamFrom _ (Scan.splitGap false s.unread).2
      rw [hnil, Scan.streamFrom_eof rfl]
      rfl
    · next hne =>
      rw [read_unrecognized (s := s.skip) hread hne]
      exact agrees_fail (s := s.skip) hstarted _ rfl

theorem next_of_failed {e : ScanError} (h : s.failure? = some e) :
    s.next = { s with started := true, token := .error } := by
  simp only [next, h]

theorem next_of_not_failed (h : s.failure? = none) :
    s.next = { s with started := true }.skip.read := by
  simp only [next, h]

/-- **A move keeps a scanner and its cursor in agreement.** -/
theorem Agrees.next (h : s.Agrees c) : s.next.Agrees c.next := by
  cases hfailure : s.failure? with
  | none =>
    have hread := agrees_read (s := { s with started := true }) hfailure rfl
    rw [next_of_not_failed hfailure, h.ahead hfailure]
    exact hread
  | some e =>
    obtain ⟨hnext, hliteral, hpos⟩ := Cursor.next_of_failure (h.failure ▸ hfailure)
    rw [next_of_failed hfailure, hnext]
    refine agrees_on rfl rfl (h.literal.trans hliteral) (h.pos.trans hpos) nofun nofun hfailure ?_
    intro hnone
    rw [hfailure] at hnone
    cases hnone

/-- **After any calls the scanner agrees with the cursor after as many moves.** -/
theorem Agrees.after (h : s.Agrees c) (calls : List Call) :
    (s.after calls).Agrees (Cursor.next^[calls.count .next] c) := by
  induction calls generalizing s c with
  | nil => exact h
  | cons call calls ih =>
    cases call with
    | next =>
      rw [List.count_cons_self, Function.iterate_succ_apply]
      exact ih h.next
    | _ => exact ih h

/-! ## Reports -/

/-- A scanner that was not asked for a token yet. -/
structure Fresh (s : Scanner) : Prop where
  token : s.token = .eof
  literal : s.literal = ""
  pos : s.pos = .none
  line : s.line = 0
  int : s.int = .error .nothingRead
  bool : s.bool = .error .nothingRead

/-- The scanner reports what stands at the front of a stream: its kind, its literal and its
position, the number that it spells or the truth value, and the misuse if it is none. -/
structure Reports (s : Scanner) (t : TokenStream) : Prop where
  token : s.token = t.token
  literal : s.literal = t.literal
  pos : s.pos = t.pos
  line : s.line = t.pos.line
  int_of_num : t.token = .num → ∃ n, s.int = .ok n ∧
    n.toInt = Nat.ofDigitChars 10 t.literal.toList 0 ∧
      Nat.ofDigitChars 10 t.literal.toList 0 < Nat.pow 2 63
  int_of_other : t.token ≠ .num → s.int = .error (.wrongToken .num t.token)
  bool_of_bool : t.token = .bool →
    (t.literal = "true" ∧ s.bool = .ok true) ∨ (t.literal = "false" ∧ s.bool = .ok false)
  bool_of_other : t.token ≠ .bool → s.bool = .error (.wrongToken .bool t.token)
  failed_iff : s.failure?.isSome = true ↔ t.token = .error

/-- The scanner answers a call by what it reports, and is not changed by it; a move is answered
by the kind of what it comes to. -/
structure Answers (s : Scanner) (t : TokenStream) : Prop where
  unchanged : ∀ call, call ≠ .next → (s.call call).1 = s
  moved : (s.call .next).1 = s.next
  next : (s.call .next).2 = .token t.token
  token : (s.call .token).2 = .token s.token
  literal : (s.call .literal).2 = .literal s.literal
  pos : (s.call .pos).2 = .pos s.pos
  line : (s.call .line).2 = .line s.line
  int : (s.call .int).2 = .int s.int
  bool : (s.call .bool).2 = .bool s.bool
  failure : (s.call .failure).2 = .failure s.failure?

theorem answers_of_next {t : TokenStream} (h : s.next.token = t.token) : s.Answers t where
  unchanged call hcall := by
    cases call with
    | next => exact absurd rfl hcall
    | _ => rfl
  moved := rfl
  next := congrArg Answer.token h
  token := rfl
  literal := rfl
  pos := rfl
  line := rfl
  int := rfl
  bool := rfl
  failure := rfl

theorem after_next (s : Scanner) (calls : List Call) :
    s.after (calls ++ [.next]) = (s.after calls).next := by
  rw [after, List.foldl_append]
  rfl

theorem Agrees.fresh {t : TokenStream} (h : s.Agrees (.before t)) : s.Fresh where
  token := h.token
  literal := h.literal
  pos := h.pos
  line := congrArg Pos.line h.pos
  int := h.int
  bool := h.bool

/-- The number of a spelled word is read off its literal. -/
theorem toInt_eq_ofDigitChars {n : Int64} (h : 0 ≤ n.toInt) :
    n.toInt = Nat.ofDigitChars 10 (Word.num n).literal.toList 0 := by
  rw [Word.literal_num_of_nonneg h, Nat.ofDigitChars_ten_toDigits, Int.toNat_of_nonneg h]

theorem Agrees.reports {t : TokenStream} (h : s.Agrees (.on t))
    (hspellable : ∀ l r, t = .cons l r → l.word.Spellable) : s.Reports t where
  token := h.token
  literal := h.literal
  pos := h.pos
  line := congrArg Pos.line h.pos
  int_of_num ht := by
    obtain ⟨n, p, r, rfl⟩ := Cursor.exists_num ht
    have hn : 0 ≤ n.toInt := hspellable _ _ rfl
    have heq := toInt_eq_ofDigitChars hn
    have hlt := Int64.toInt_lt n
    rw [heq] at hlt
    exact ⟨n, h.int, heq, Int.ofNat_lt.1 hlt⟩
  int_of_other ht := h.int.trans (Cursor.int_on_of_ne ht)
  bool_of_bool ht := by
    obtain ⟨b, p, r, rfl⟩ := Cursor.exists_bool ht
    cases b with
    | true => exact .inl ⟨rfl, h.bool⟩
    | false => exact .inr ⟨rfl, h.bool⟩
  bool_of_other ht := h.bool.trans (Cursor.bool_on_of_ne ht)
  failed_iff := by
    rw [h.failure]
    rcases t with _ | _ | ⟨⟨w, p⟩, r⟩
    · exact iff_of_false nofun nofun
    · exact iff_of_true rfl rfl
    · exact iff_of_false nofun fun ht => w.token_ne_end (.inr ht)

end Scanner

theorem TokenStream.mem_lexemes_of_mem_suffixes {s r : TokenStream} {l : Lexeme}
    (h : .cons l r ∈ s.suffixes) : l ∈ s.lexemes := by
  induction s with
  | eof p => cases List.mem_singleton.1 h
  | failed e => cases List.mem_singleton.1 h
  | cons l' t ih =>
    rcases List.mem_cons.1 h with heq | h
    · cases heq
      exact List.mem_cons_self
    · exact List.mem_cons_of_mem _ (ih h)

/-- Only the last token of a stream is an end. -/
theorem TokenStream.end_iff {s t : TokenStream} {i : Nat} (h : s.suffixes[i]? = some t) :
    t.token = .eof ∨ t.token = .error ↔ i = s.length := by
  induction s generalizing i with
  | eof p =>
    cases i with
    | zero =>
      cases h
      exact iff_of_true (.inl rfl) rfl
    | succ i => cases h
  | failed e =>
    cases i with
    | zero =>
      cases h
      exact iff_of_true (.inr rfl) rfl
    | succ i => cases h
  | cons l r ih =>
    cases i with
    | zero =>
      cases h
      exact iff_of_false l.word.token_ne_end nofun
    | succ i => exact (ih h).trans Nat.succ_inj.symm

/-- A source that holds a token could be read. -/
theorem Source.failure_eq_none {src : Source} (h : 0 < src.tokens.length) :
    src.failure = none := by
  obtain ⟨name, bytes, failure⟩ := src
  cases failure with
  | none => rfl
  | some cause => exact absurd h (Nat.lt_irrefl 0)

/-- After a move the scanner reports the token that it has come to. -/
theorem Scanner.exists_reports_after (src : Source) {calls : List Scanner.Call}
    (h : 0 < calls.count .next) : ∃ t,
      src.tokens.suffixes[min (calls.count .next) src.tokens.suffixes.length - 1]? = some t ∧
      ((Scanner.ofSource src).after calls).Reports t := by
  have hagrees := (Scanner.agrees_ofSource src).after calls
  obtain ⟨k, hk⟩ : ∃ k, calls.count .next = k + 1 :=
    Nat.exists_eq_succ_of_ne_zero (Nat.ne_of_gt h)
  have hsuffix := src.tokens.getElem?_suffixes k
  rw [hk, Cursor.iterate_next] at hagrees
  rw [TokenStream.length_suffixes, hk, Nat.succ_min_succ, Nat.succ_sub_one]
  refine ⟨_, hsuffix, hagrees.reports fun l r hl => ?_⟩
  rw [hl] at hsuffix
  exact src.spellable_of_mem l
    (TokenStream.mem_lexemes_of_mem_suffixes (List.mem_of_getElem? hsuffix))

/-- **A scanner answers by its tokens and the number of moves.**  Whatever it is asked in
between, before the first move it has nothing to report, and after `k` moves it reports the
`k`-th token of its source, or the last one, which is the only end among them.  The failure
of the source is known when the last token is reached, or from the start if the source could
not be read, and never changes.  What is reported is what the next call is answered by, and a
move is answered by the kind of the token that is one further. -/
theorem Scanner.answers_by_moves (src : Source) (calls : List Scanner.Call) :
    (calls.count .next = 0 → ((Scanner.ofSource src).after calls).Fresh) ∧
    (0 < calls.count .next → ∃ t,
      src.tokens.suffixes[min (calls.count .next) src.tokens.suffixes.length - 1]? = some t ∧
      ((Scanner.ofSource src).after calls).Reports t) ∧
    ((Scanner.ofSource src).after calls).failure? =
      (if src.tokens.suffixes.length ≤ calls.count .next then src.tokens.failure?
        else src.failure.map (.read src.name)) ∧
    (∀ i t, src.tokens.suffixes[i]? = some t →
      (t.token = .eof ∨ t.token = .error ↔ i + 1 = src.tokens.suffixes.length)) ∧
    ∃ t, src.tokens.suffixes[min (calls.count .next + 1) src.tokens.suffixes.length - 1]? = some t ∧
      ((Scanner.ofSource src).after calls).Answers t := by
  have hagrees := (Scanner.agrees_ofSource src).after calls
  refine ⟨fun hzero => ?_, Scanner.exists_reports_after src, ?_, fun i t h => ?_, ?_⟩
  · rw [hzero] at hagrees
    exact hagrees.fresh
  · rw [TokenStream.length_suffixes, hagrees.failure]
    cases calls.count .next with
    | zero =>
      rw [if_neg (Nat.not_succ_le_zero _)]
      exact (Scanner.agrees_ofSource src).failure.symm
    | succ k =>
      rw [Cursor.iterate_next, TokenStream.failure?_iterate_tail,
        if_congr Nat.succ_le_succ_iff rfl rfl]
      split
      · rfl
      · next hlt =>
        rw [src.failure_eq_none (Nat.zero_lt_of_lt (Nat.lt_of_not_le hlt))]
        rfl
  · rw [TokenStream.length_suffixes, Nat.succ_inj]
    exact TokenStream.end_iff h
  · have hcount : (calls ++ [Scanner.Call.next]).count .next = calls.count .next + 1 := by
      rw [List.count_append, List.count_singleton_self]
    have hpos : 0 < (calls ++ [Scanner.Call.next]).count .next := by
      rw [hcount]
      exact Nat.succ_pos _
    obtain ⟨t, ht, hreports⟩ := Scanner.exists_reports_after src hpos
    rw [hcount] at ht
    rw [Scanner.after_next] at hreports
    exact ⟨t, ht, Scanner.answers_of_next hreports.token⟩

end PairDict
