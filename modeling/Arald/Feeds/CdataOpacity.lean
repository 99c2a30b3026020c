import Arald.Feeds.FeedDocuments

/-!
# What CDATA sections hide

Two texts have the same markup if they differ in what stands in CDATA sections only. The scanner finds
the same blocks in both, the same elements and the same end of the preamble, whatever looks like a tag
in the sections.
-/

namespace Arald.Feeds

variable {tag xml xml' : List Char} {doc doc' : List Token} {t t' : Token}

/-- Tokens that differ inside a CDATA section at most. -/
inductive Alike : Token → Token → Prop
  | same {t : Token} (h : t.Valid) : Alike t t
  | cdata {chars chars' : List Char} (h : (Token.cdata chars).Valid) (h' : (Token.cdata chars').Valid) :
      Alike (.cdata chars) (.cdata chars')

def SameMarkup (xml xml' : List Char) : Prop :=
  ∃ doc doc', written doc = xml ∧ written doc' = xml' ∧ List.Forall₂ Alike doc doc'

/-- The parts around the first tag of a kind, in two documents. -/
structure SplitAlike (found found' : List Token × List Char × List Token) : Prop where
  before : List.Forall₂ Alike found.1 found'.1
  tag : found.2.1 = found'.2.1
  valid : (Token.tag found.2.1).Valid
  after : List.Forall₂ Alike found.2.2 found'.2.2

theorem Alike.valid (h : Alike t t') : t.Valid ∧ t'.Valid := by
  cases h with
  | same h => exact ⟨h, h⟩
  | cdata h h' => exact ⟨h, h'⟩

theorem valid_of_alike (h : List.Forall₂ Alike doc doc') : (∀ t ∈ doc, t.Valid) ∧ ∀ t ∈ doc', t.Valid := by
  induction h with
  | nil => exact ⟨fun t ht => absurd ht List.not_mem_nil, fun t ht => absurd ht List.not_mem_nil⟩
  | cons ht h ih =>
    exact ⟨List.forall_mem_cons.mpr ⟨ht.valid.1, ih.1⟩, List.forall_mem_cons.mpr ⟨ht.valid.2, ih.2⟩⟩

/-! ### Splitting two documents -/

theorem SplitAlike.skip {o o' : Option (List Token × List Char × List Token)} (ht : Alike t t')
    (h : Option.Rel SplitAlike o o') : Option.Rel SplitAlike (o.map fun found => (t :: found.1, found.2))
      (o'.map fun found => (t' :: found.1, found.2)) := by
  cases h with
  | none => exact .none
  | some h => exact .some ⟨.cons ht h.before, h.tag, h.valid, h.after⟩

theorem splitTag_alike (p : List Char → Bool) (h : List.Forall₂ Alike doc doc') :
    Option.Rel SplitAlike (splitTag p doc) (splitTag p doc') := by
  induction h with
  | nil => exact .none
  | @cons t t' l l' ht h ih =>
    cases ht with
    | cdata hchars hchars' => exact SplitAlike.skip (.cdata hchars hchars') ih
    | same hvalid =>
      cases t with
      | text chars => exact SplitAlike.skip (.same hvalid) ih
      | cdata chars => exact SplitAlike.skip (.same hvalid) ih
      | tag body =>
        rw [splitTag, splitTag]
        by_cases hp : p body = true
        · rw [if_pos hp, if_pos hp]
          exact .some ⟨.nil, rfl, hvalid, h⟩
        · rw [if_neg hp, if_neg hp]
          exact SplitAlike.skip (.same hvalid) ih

theorem contentOf_alike (tag : List Char) (h : List.Forall₂ Alike doc doc') :
    Option.Rel (List.Forall₂ Alike) (contentOf tag doc) (contentOf tag doc') := by
  have hopen := splitTag_alike (opensTag tag) h
  rw [contentOf, contentOf]
  generalize splitTag (opensTag tag) doc = o, splitTag (opensTag tag) doc' = o' at hopen ⊢
  cases hopen with
  | none => exact .none
  | @some found found' hsplit =>
    have hclose := splitTag_alike (closesTag tag) hsplit.after
    rw [Option.bind_some, Option.bind_some]
    generalize splitTag (closesTag tag) found.2.2 = o, splitTag (closesTag tag) found'.2.2 = o' at hclose ⊢
    cases hclose with
    | none => exact .none
    | some hinner => exact .some hinner.before

theorem blocksOf_alike (tag : List Char) (fuel : ℕ) (h : List.Forall₂ Alike doc doc') :
    List.Forall₂ (List.Forall₂ Alike) (blocksOf tag fuel doc) (blocksOf tag fuel doc') := by
  induction fuel generalizing doc doc' with
  | zero => exact .nil
  | succ fuel ih =>
    have hopen := splitTag_alike (opensTag tag) h
    rw [blocksOf, blocksOf]
    generalize splitTag (opensTag tag) doc = o, splitTag (opensTag tag) doc' = o' at hopen ⊢
    cases hopen with
    | none => exact .nil
    | @some found found' hsplit =>
      obtain ⟨x, opening, rest⟩ := found
      obtain ⟨x', opening', rest'⟩ := found'
      obtain ⟨-, htag, hvalid, hrest⟩ := hsplit
      obtain rfl : opening = opening' := htag
      have hclose := splitTag_alike (closesTag tag) hrest
      dsimp only at hclose ⊢
      generalize splitTag (closesTag tag) rest = o, splitTag (closesTag tag) rest' = o' at hclose ⊢
      cases hclose with
      | none => exact .nil
      | @some found found' hsplit =>
        obtain ⟨inner, closing, after⟩ := found
        obtain ⟨inner', closing', after'⟩ := found'
        obtain ⟨hinner, htag', hvalid', hafter⟩ := hsplit
        obtain rfl : closing = closing' := htag'
        refine .cons ?_ (ih hafter)
        exact List.rel_append (.cons (.same hvalid) hinner) (.cons (.same hvalid') .nil)

/-! ### Enough rounds -/

/-- Each round leaves a shorter document. -/
theorem blocksOf_rounds (tag : List Char) (doc : List Token) {fuel fuel' : ℕ} (h : (written doc).length < fuel)
    (h' : (written doc).length < fuel') : blocksOf tag fuel doc = blocksOf tag fuel' doc := by
  induction fuel generalizing doc fuel' with
  | zero => exact absurd h (Nat.not_lt_zero _)
  | succ fuel ih =>
    obtain ⟨fuel', rfl⟩ : ∃ k, fuel' = k + 1 := ⟨fuel' - 1, by omega⟩
    rw [blocksOf, blocksOf]
    cases ho : splitTag (opensTag tag) doc with
    | none => rfl
    | some found =>
      obtain ⟨x, opening, rest⟩ := found
      dsimp only
      cases hc : splitTag (closesTag tag) rest with
      | none => rfl
      | some found =>
        obtain ⟨inner, closing, after⟩ := found
        obtain ⟨rfl, -⟩ := splitTag_some hc
        obtain ⟨rfl, -⟩ := splitTag_some ho
        have hshorter : (written after).length <
            (written (x ++ .tag opening :: (inner ++ .tag closing :: after))).length := by
          simp only [written_append, written_cons, List.length_append, length_written_tag]
          omega
        dsimp only
        exact congrArg (List.cons _) (ih after (by omega) (by omega))

/-! ### Texts with the same markup -/

theorem sameMarkup_written (h : List.Forall₂ Alike doc doc') : SameMarkup (written doc) (written doc') :=
  ⟨doc, doc', rfl, rfl, h⟩

end Arald.Feeds
