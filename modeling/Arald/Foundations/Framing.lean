import Mathlib

/-!
# Frames in a stream

A receiver reads frames out of a stream that arrives in pieces. It looks at what it
has: more is needed, a frame is complete, or the first symbol begins no frame and is
skipped. A verdict that was reached stays as it is when more arrives, so that the
frames depend on the stream and not on the pieces.
-/

namespace Foundations

inductive Verdict (φ : Type*) where
  | incomplete
  | skip
  | frame (f : φ) (size : ℕ)

structure Framing (β : Type*) (φ : Type*) where
  verdict : List β → Verdict φ
  verdict_nil : verdict [] = .incomplete
  size_bounds : ∀ {buffer f size}, verdict buffer = .frame f size → 0 < size ∧ size ≤ buffer.length
  stable : ∀ {buffer} (more : List β), verdict buffer ≠ .incomplete → verdict (buffer ++ more) = verdict buffer

namespace Framing

variable {β φ : Type*} (F : Framing β φ)

/-- The frames of a buffer and what is left of it. Every round takes at least one
symbol, so the number of symbols bounds the number of rounds. -/
def parseWith : ℕ → List β → List φ × List β
  | 0, buffer => ([], buffer)
  | fuel + 1, buffer =>
    match F.verdict buffer with
    | .incomplete => ([], buffer)
    | .skip => parseWith fuel buffer.tail
    | .frame f size =>
      let r := parseWith fuel (buffer.drop size)
      (f :: r.1, r.2)

def parse (buffer : List β) : List φ × List β := F.parseWith buffer.length buffer

variable {F} {buffer : List β} {f : φ} {size : ℕ}

theorem ne_nil_of_skip (h : F.verdict buffer = .skip) : buffer ≠ [] := by
  rintro rfl
  rw [F.verdict_nil] at h
  cases h

theorem parseWith_eq_parse (fuel : ℕ) (buffer : List β) (h : buffer.length ≤ fuel) :
    F.parseWith fuel buffer = F.parse buffer := by
  induction fuel using Nat.strong_induction_on generalizing buffer with
  | _ fuel ih =>
    unfold parse
    rcases fuel with _ | fuel
    · rw [Nat.le_zero.mp h]
    · cases hlength : buffer.length with
      | zero =>
        obtain rfl := List.length_eq_zero_iff.mp hlength
        simp [parseWith, F.verdict_nil]
      | succ n =>
        rw [hlength] at h
        simp only [parseWith]
        cases hverdict : F.verdict buffer with
        | incomplete => rfl
        | skip =>
          have htail : buffer.tail.length ≤ n := by simp [hlength]
          rw [ih fuel (Nat.lt_succ_self _) _ (by omega), ih n (by omega) _ htail]
        | frame f size =>
          have hdrop : (buffer.drop size).length ≤ n := by
            have hpos := (F.size_bounds hverdict).1
            rw [List.length_drop]
            omega
          dsimp only
          rw [ih fuel (Nat.lt_succ_self _) _ (by omega), ih n (by omega) _ hdrop]

/-! ### One round -/

theorem parse_of_incomplete (h : F.verdict buffer = .incomplete) : F.parse buffer = ([], buffer) := by
  unfold parse
  cases buffer.length <;> simp [parseWith, h]

theorem parse_of_skip (h : F.verdict buffer = .skip) : F.parse buffer = F.parse buffer.tail := by
  obtain ⟨b, rest, rfl⟩ := List.exists_cons_of_ne_nil (ne_nil_of_skip h)
  rw [parse, List.length_cons, parseWith, h]
  exact parseWith_eq_parse _ _ le_rfl

theorem parse_of_frame (h : F.verdict buffer = .frame f size) :
    F.parse buffer = (f :: (F.parse (buffer.drop size)).1, (F.parse (buffer.drop size)).2) := by
  obtain ⟨hpos, hle⟩ := F.size_bounds h
  obtain ⟨n, hn⟩ : ∃ n, buffer.length = n + 1 := ⟨buffer.length - 1, by omega⟩
  have hdrop : (buffer.drop size).length ≤ n := by
    rw [List.length_drop]
    omega
  rw [parse, hn, parseWith, h]
  dsimp only
  rw [parseWith_eq_parse n _ hdrop]

/-- The rounds of a parse, as an induction on the buffer. -/
theorem parse_induction {P : List β → Prop}
    (hincomplete : ∀ buffer, F.verdict buffer = .incomplete → P buffer)
    (hskip : ∀ buffer, F.verdict buffer = .skip → P buffer.tail → P buffer)
    (hframe : ∀ buffer f size, F.verdict buffer = .frame f size → P (buffer.drop size) → P buffer)
    (buffer : List β) : P buffer := by
  induction hlength : buffer.length using Nat.strong_induction_on generalizing buffer with
  | _ n ih =>
    cases hverdict : F.verdict buffer with
    | incomplete => exact hincomplete buffer hverdict
    | skip =>
      have hpos := List.length_pos_iff.mpr (ne_nil_of_skip hverdict)
      refine hskip buffer hverdict (ih _ ?_ buffer.tail rfl)
      rw [List.length_tail]
      omega
    | frame f size =>
      obtain ⟨hpos, hle⟩ := F.size_bounds hverdict
      refine hframe buffer f size hverdict (ih _ ?_ (buffer.drop size) rfl)
      rw [List.length_drop]
      omega

/-! ### Streams -/

/-- What is left is waiting for more. -/
theorem verdict_rest (buffer : List β) : F.verdict (F.parse buffer).2 = .incomplete := by
  induction buffer using F.parse_induction with
  | hincomplete buffer h => rwa [parse_of_incomplete h]
  | hskip buffer h ih => rwa [parse_of_skip h]
  | hframe buffer f size h ih => rwa [parse_of_frame h]

/-- The frames of a stream are those of its beginning and those of what was left
then, together with the rest. -/
theorem parse_append (buffer more : List β) :
    F.parse (buffer ++ more) =
      ((F.parse buffer).1 ++ (F.parse ((F.parse buffer).2 ++ more)).1,
        (F.parse ((F.parse buffer).2 ++ more)).2) := by
  induction buffer using F.parse_induction with
  | hincomplete buffer h => simp [parse_of_incomplete h]
  | hskip buffer h ih =>
    have hmore : F.verdict (buffer ++ more) = .skip := by
      rw [F.stable more (by simp [h]), h]
    rw [parse_of_skip h, parse_of_skip hmore, List.tail_append_of_ne_nil (ne_nil_of_skip h), ih]
  | hframe buffer f size h ih =>
    have hmore : F.verdict (buffer ++ more) = .frame f size := by
      rw [F.stable more (by simp [h]), h]
    rw [parse_of_frame h, parse_of_frame hmore, List.drop_append_of_le_length (F.size_bounds h).2, ih]
    rfl

/-- A receiver that has emptied its buffer down to `rest`, perhaps not of all noise. -/
def Awaits (F : Framing β φ) (buffer rest : List β) : Prop := F.parse buffer = ([], rest)

/-- Noise that was kept changes nothing for what comes. -/
theorem Awaits.parse_append {rest : List β} (h : F.Awaits buffer rest) (more : List β) :
    F.parse (buffer ++ more) = F.parse (rest ++ more) := by
  rw [Framing.parse_append, h]
  rfl

end Framing
end Foundations
