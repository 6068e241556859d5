import PairDict.Proofs.Grammar.Derived
import PairDict.Proofs.Grammar.Leftover
import PairDict.Proofs.Lexeme.Pattern

/-! # One lexeme of lookahead

What a reader does on a stream is **settled** by the words up to the place where it stops,
whether it succeeds there or not, and by what stands at that place: on every stream with the
same words up to such a place it stops there too, in the same way (`Settled`).

The words up to that place are a phrase if the reader succeeds.  If it does not, they are
the **beginning** of one: words that can be spelled may follow them and make them a phrase.
And the word that is expected then, if only one is, can be the first of these (`Fits`).

Both are shown together, for one reader after another, as they are built from each other:
`Settled.then` is for readers that are called in a row, and `Settled.front` and
`Settled.congr` are for the decisions that are made at the front of a stream.
-/
namespace PairDict

/-- The same stands at the front of both streams. -/
inductive SameFront : TokenStream → TokenStream → Prop where
  | eof {p q} : SameFront (.eof p) (.eof q)
  | failed {e f} : SameFront (.failed e) (.failed f)
  | cons {w p q t u} : SameFront (.cons ⟨w, p⟩ t) (.cons ⟨w, q⟩ u)

namespace SameFront

variable {s s' u u' : TokenStream}

theorem refl : ∀ s : TokenStream, SameFront s s
  | .eof _ => .eof
  | .failed _ => .failed
  | .cons _ _ => .cons

theorem token_eq (h : SameFront s s') : s'.token = s.token := by
  cases h <;> rfl

/-- Streams with the same front after the same words have the same front. -/
theorem of_spells {ws : List Word} (h : SameFront u u') (hs : Spells ws s u)
    (hs' : Spells ws s' u') : SameFront s s' := by
  cases ws with
  | nil =>
    cases hs
    cases hs'
    exact h
  | cons w ws =>
    obtain ⟨p, t, rfl, -⟩ := hs
    obtain ⟨p', t', rfl, -⟩ := hs'
    exact .cons

/-- A class of words that is not at one front is not at the other. -/
theorem front_eq_false {c : Word → Bool} (h : SameFront s s')
    (hs : ∀ l t, s = .cons l t → c l.word = false) (l : Lexeme) (t : TokenStream)
    (hst : s' = .cons l t) : c l.word = false := by
  cases h with
  | eof | failed => cases hst
  | cons =>
    cases hst
    have hword := hs _ _ rfl
    exact hword

end SameFront

namespace Grammar

/-! ## Beginnings of phrases -/

/-- Words that can be spelled make a phrase of the words `ws`. -/
def Viable (L : List Word → Prop) (ws : List Word) : Prop :=
  ∃ more, (∀ w ∈ more, w.Spellable) ∧ L (ws ++ more)

/-- A phrase of the one kind and then a phrase of the other. -/
def Then (L L' : List Word → Prop) (ws : List Word) : Prop :=
  ∃ us vs, L us ∧ L' vs ∧ ws = us ++ vs

/-- The words of a derivation. -/
def Derives {δ : Type} (words : δ → List Word) (ws : List Word) : Prop := ∃ d, words d = ws

/-- How a reader stops: it has read a phrase, or it refuses what it finds. -/
inductive Verdict where
  | read
  | refused (expected : Option Token)

/-- What a reader that stops at `u` has to show for it. -/
def Verdict.outcome : Verdict → TokenStream → Except SyntaxError TokenStream
  | .read, u => .ok u
  | .refused expected, u => .error (Parser.reject expected u)

/-- The words read so far bear out the verdict. -/
inductive Fits (L : List Word → Prop) (ws : List Word) : Verdict → Prop where
  /-- They are a phrase. -/
  | read : L ws → Fits L ws .read
  /-- They are the beginning of a phrase. -/
  | unexpected : Viable L ws → Fits L ws (.refused none)
  /-- They are the beginning of a phrase that goes on with any word of the expected kind. -/
  | expected {t} : (∃ w : Word, w.token = t ∧ w.Spellable) →
      (∀ w : Word, w.token = t → w.Spellable → Viable L (ws ++ [w])) →
      Fits L ws (.refused (some t))

variable {L L' : List Word → Prop} {ws : List Word} {v : Verdict}

theorem Viable.map (h : Viable L ws) (us : List Word) (hL : ∀ xs, L xs → Viable L' (us ++ xs)) :
    Viable L' (us ++ ws) := by
  obtain ⟨more, hmore, h⟩ := h
  obtain ⟨more', hmore', h'⟩ := hL _ h
  refine ⟨more ++ more', fun w hw => (List.mem_append.1 hw).elim (hmore w) (hmore' w), ?_⟩
  rw [List.append_assoc, List.append_assoc] at h'
  rwa [List.append_assoc]

/-- A phrase is the beginning of itself. -/
theorem Viable.of_phrase (h : L ws) : Viable L ws := ⟨[], nofun, (List.append_nil ws).symm ▸ h⟩

/-- What is refused within a phrase is refused within what the phrase is a part of. -/
theorem Fits.map (h : Fits L ws v) (us : List Word) (hread : v = .read → L' (us ++ ws))
    (hL : ∀ xs, L xs → Viable L' (us ++ xs)) : Fits L' (us ++ ws) v := by
  cases h with
  | read _ => exact .read (hread rfl)
  | unexpected h => exact .unexpected (h.map us hL)
  | expected hw h =>
    refine .expected hw fun w htoken hspell => ?_
    rw [List.append_assoc]
    exact (h w htoken hspell).map us hL

theorem Fits.phrase (h : Fits L ws .read) : L ws := by
  cases h with
  | read h => exact h

theorem Fits.viable (h : Fits L ws v) : Viable L ws := by
  cases h with
  | read h => exact .of_phrase h
  | unexpected h => exact h
  | expected hw h =>
    obtain ⟨w, htoken, hspell⟩ := hw
    obtain ⟨more, hmore, hL⟩ := h w htoken hspell
    rw [List.append_assoc] at hL
    exact ⟨w :: more, List.forall_mem_cons.2 ⟨hspell, hmore⟩, hL⟩

/-! ## Settled readers -/

variable {R R' : TokenStream → Except SyntaxError TokenStream} {s u : TokenStream}

/-- What the reader `R` of the phrases `L` does from `s` is settled by the words up to some
place and by what stands there. -/
def Settled (L : List Word → Prop) (R : TokenStream → Except SyntaxError TokenStream)
    (s : TokenStream) : Prop :=
  ∃ ws v u, Spells ws s u ∧ Fits L ws v ∧
    ∀ s' u', Spells ws s' u' → SameFront u u' → R s' = v.outcome u'

namespace Settled

theorem mono (h : Settled L R s) (hL : ∀ ws, L ws → L' ws) : Settled L' R s := by
  obtain ⟨ws, v, u, hs, hfits, hR⟩ := h
  refine ⟨ws, v, u, hs, ?_, hR⟩
  exact hfits.map [] (fun hv => hL ws (hv ▸ hfits).phrase) fun xs hxs => .of_phrase (hL xs hxs)

/-- Another reader that does the same wherever the front is the same. -/
theorem congr (h : Settled L R s) (hR : ∀ s', SameFront s s' → R' s' = R s') : Settled L R' s := by
  obtain ⟨ws, v, u, hs, hfits, hR'⟩ := h
  exact ⟨ws, v, u, hs, hfits, fun s' u' hs' hu =>
    (hR s' (hu.of_spells hs hs')).trans (hR' s' u' hs' hu)⟩

/-- A reader that stops at once, as it may. -/
theorem stop (hL : L []) (hR : ∀ s', SameFront s s' → R s' = .ok s') : Settled L R s :=
  ⟨[], .read, s, rfl, .read hL, fun _ _ hs' hu => hs' ▸ hR _ (hs' ▸ hu)⟩

/-- A reader that refuses the front. -/
theorem refuse {expected : Option Token} (hL : Fits L [] (.refused expected))
    (hR : ∀ s', SameFront s s' → R s' = .error (Parser.reject expected s')) : Settled L R s :=
  ⟨[], .refused expected, s, rfl, hL, fun _ _ hs' hu => hs' ▸ hR _ (hs' ▸ hu)⟩

/-- **Two readers in a row.** -/
theorem «then» (h : Settled L R s) (h' : ∀ t, R s = .ok t → Settled L' R' t) (hL' : Viable L' []) :
    Settled (Then L L') (fun s => R s >>= R') s := by
  obtain ⟨ws, v, u, hs, hfits, hR⟩ := h
  cases v with
  | refused expected =>
    refine ⟨ws, .refused expected, u, hs, ?_, fun s' u' hs' hu => ?_⟩
    · refine hfits.map [] nofun fun xs hxs => ?_
      have hmore : Viable (Then L L') (xs ++ []) :=
        hL'.map xs fun ys hys => .of_phrase ⟨xs, ys, hxs, hys, rfl⟩
      rwa [List.append_nil] at hmore
    · show R s' >>= R' = _
      rw [hR s' u' hs' hu]
      rfl
  | read =>
    obtain ⟨ws', v', u', hu, hfits', hR'⟩ := h' u (hR s u hs (.refl u))
    have hL : L ws := hfits.phrase
    refine ⟨ws ++ ws', v', u', Spells.append_iff.2 ⟨u, hs, hu⟩, ?_, fun s₁ u₁ hs₁ hu₁ => ?_⟩
    · exact hfits'.map ws (fun hv => ⟨ws, ws', hL, (hv ▸ hfits').phrase, rfl⟩)
        fun xs hxs => .of_phrase ⟨ws, xs, hL, hxs, rfl⟩
    · obtain ⟨t₁, ht₁, htu₁⟩ := Spells.append_iff.1 hs₁
      show R s₁ >>= R' = _
      rw [hR s₁ t₁ ht₁ (hu₁.of_spells hu htu₁)]
      exact hR' t₁ u₁ htu₁ hu₁

/-- A reader that decides by the word at the front, and goes on behind it. -/
theorem front {w : Word} {p : Pos} {t : TokenStream} (h : Settled L R t)
    (hR : ∀ p t, R' (.cons ⟨w, p⟩ t) = R t) : Settled (Then (· = [w]) L) R' (.cons ⟨w, p⟩ t) := by
  obtain ⟨ws, v, u, ht, hfits, hR'⟩ := h
  refine ⟨w :: ws, v, u, ⟨p, t, rfl, ht⟩, ?_, ?_⟩
  · exact hfits.map [w] (fun hv => ⟨[w], ws, rfl, (hv ▸ hfits).phrase, rfl⟩)
      fun xs hxs => .of_phrase ⟨[w], xs, rfl, hxs, rfl⟩
  · rintro _ u' ⟨p', t', rfl, ht'⟩ hu
    rw [hR]
    exact hR' t' u' ht' hu

end Settled

end Grammar

end PairDict
