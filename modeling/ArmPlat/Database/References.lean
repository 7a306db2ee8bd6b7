import ArmPlat.Database.Loop
/-!
# Cross-references during the walk, and what a token may resolve to

At every segment, the walk of a lookup reads a string as a `#{...}`
cross-reference when it starts with `#` and holds one `{` and one `}`,
wherever they stand; it then looks up the text between the first `{` and
the first `}`, and the rest of the string is dropped
(`crossRef_resolution`). So `#{b}.zip` is an alias of `b` (`dblu_zipDoc`).

A template's tokens and a cross-reference are looked up with `noneAllowed`
false whatever the outer lookup allows, so an absent target aborts
(`dblu_nullRefDoc`), and a token that resolves to `True` reaches
`str.replace` as a non-string (`dblu_flagDoc`).
-/

namespace ArmPlat

namespace Database

open Py

/-! ## Recognising a cross-reference -/

theorem crossRef?_eq {s : List Char} :
    crossRef? s = if startswith s ['#'] ∧ s.count '{' = s.count '}' ∧ s.count '}' = 1 then
      some (token s).1 else none := rfl

theorem startswith_hash (rest : List Char) : startswith ('#' :: rest) ['#'] = true :=
  startswith_iff.2 (List.prefix_append ['#'] rest)

section Recognise

variable {pre x post : List Char}

/-- With the `{` first, the key is the text between the braces. -/
theorem crossRef?_of_lbrace_first (h1 : '{' ∉ pre) (h2 : '}' ∉ pre) (h3 : '{' ∉ x) (h4 : '}' ∉ x)
    (h5 : '{' ∉ post) (h6 : '}' ∉ post) :
    crossRef? ('#' :: pre ++ '{' :: x ++ '}' :: post) = some x := by
  have hc1 : ('#' :: pre ++ '{' :: x ++ '}' :: post).count '{' = 1 := by
    simp [List.count_eq_zero.2 h1, List.count_eq_zero.2 h3, List.count_eq_zero.2 h5]
  have hc2 : ('#' :: pre ++ '{' :: x ++ '}' :: post).count '}' = 1 := by
    simp [List.count_eq_zero.2 h2, List.count_eq_zero.2 h4, List.count_eq_zero.2 h6]
  rw [crossRef?_eq, if_pos ⟨startswith_hash _, hc1.trans hc2.symm, hc2⟩]
  have := @token_of_lbrace_first ('#' :: pre) x post (by simp [h1]) (by simp [h2]) h4
  simp only [List.cons_append] at this ⊢
  rw [this]

/-- With the `}` first, the key is empty. -/
theorem crossRef?_of_rbrace_first (h1 : '{' ∉ pre) (h2 : '}' ∉ pre) (h3 : '{' ∉ x) (h4 : '}' ∉ x)
    (h5 : '{' ∉ post) (h6 : '}' ∉ post) :
    crossRef? ('#' :: pre ++ '}' :: x ++ '{' :: post) = some [] := by
  have hc1 : ('#' :: pre ++ '}' :: x ++ '{' :: post).count '{' = 1 := by
    simp [List.count_eq_zero.2 h1, List.count_eq_zero.2 h3, List.count_eq_zero.2 h5]
  have hc2 : ('#' :: pre ++ '}' :: x ++ '{' :: post).count '}' = 1 := by
    simp [List.count_eq_zero.2 h2, List.count_eq_zero.2 h4, List.count_eq_zero.2 h6]
  rw [crossRef?_eq, if_pos ⟨startswith_hash _, hc1.trans hc2.symm, hc2⟩]
  have := @token_of_rbrace_first ('#' :: pre) x post (by simp [h1]) (by simp [h2]) h3
  simp only [List.cons_append] at this ⊢
  rw [this]

end Recognise

/-- What the walk does with the value a segment resolved to: it enters a
dict, and keeps anything else as the item. -/
def walkOn (nested : Agg → List Char → Except Fault Value) (lvl d : Agg) (ks : List (List Char)) :
    Value → Except Fault (Agg × Value)
  | .node (.dict kvs) => walk nested (Agg.ofDict kvs) (d.assimilate kvs) (.node (.dict kvs)) ks
  | item => walk nested lvl d item ks

theorem walk_cons_str {nested : Agg → List Char → Except Fault Value} {lvl d : Agg} {item : Value}
    {k s : List Char} {ks : List (List Char)} (h : (lvl k <|> d k) = some (.str s)) :
    walk nested lvl d item (k :: ks) = resolveRef (nested d) (.str s) >>= walkOn nested lvl d ks := by
  rw [walk_cons, h]
  rfl

/-- **What the walk of a lookup does with a string.** At any segment of the
walk `lookup` runs, for every document and context, a string that starts
with `#` and holds exactly one `{` and one `}`, wherever they stand, is
replaced by the lookup, against the aggregate, of the text between the
first `{` and the first `}` (the empty key when the `}` comes first), and
all else in it is dropped; every other string is kept whole as the item. -/
theorem crossRef_resolution (root : List (List Char × Node)) (n : Nat) (plat : Option (List Char))
    (lvl d : Agg) (item : Value) (k : List Char) (ks : List (List Char)) :
    (∀ pre x post : List Char, '{' ∉ pre → '}' ∉ pre → '{' ∉ x → '}' ∉ x → '{' ∉ post → '}' ∉ post →
      (lvl k <|> d k) = some (.str ('#' :: pre ++ '{' :: x ++ '}' :: post)) →
      walk (fun d k => lookup root n d k plat false) lvl d item (k :: ks) =
        lookup root n d x plat false >>= walkOn (fun d k => lookup root n d k plat false) lvl d ks) ∧
    (∀ pre x post : List Char, '{' ∉ pre → '}' ∉ pre → '{' ∉ x → '}' ∉ x → '{' ∉ post → '}' ∉ post →
      (lvl k <|> d k) = some (.str ('#' :: pre ++ '}' :: x ++ '{' :: post)) →
      walk (fun d k => lookup root n d k plat false) lvl d item (k :: ks) =
        lookup root n d [] plat false >>= walkOn (fun d k => lookup root n d k plat false) lvl d ks) ∧
    ∀ s : List Char, ¬ (startswith s ['#'] ∧ s.count '{' = 1 ∧ s.count '}' = 1) →
      (lvl k <|> d k) = some (.str s) →
      walk (fun d k => lookup root n d k plat false) lvl d item (k :: ks) =
        walk (fun d k => lookup root n d k plat false) lvl d (.node (.str s)) ks := by
  refine ⟨fun pre x post h1 h2 h3 h4 h5 h6 hk => ?_, fun pre x post h1 h2 h3 h4 h5 h6 hk => ?_,
    fun s hs hk => ?_⟩
  · rw [walk_cons_str hk, resolveRef, crossRef?_of_lbrace_first h1 h2 h3 h4 h5 h6]
  · rw [walk_cons_str hk, resolveRef, crossRef?_of_rbrace_first h1 h2 h3 h4 h5 h6]
  · have : crossRef? s = none := if_neg fun ⟨ha, hb, hc⟩ => hs ⟨ha, hb.trans hc, hc⟩
    rw [walk_cons_str hk, resolveRef, this, ok_bind]
    rfl

/-- `a` is `#{b}.zip`. -/
def zipDoc : List (List Char × Node) :=
  [(['b'], .str ['v']), (['a'], .str ['#', '{', 'b', '}', '.', 'z', 'i', 'p'])]

/-- `#{b}.zip` resolves to `b`'s value, not to the template's `#v.zip`. -/
theorem dblu_zipDoc :
    Outcome zipDoc (Agg.ofDict zipDoc) ['a'] none false (.ok (.node (.str ['v']))) ∧
      ¬ Outcome zipDoc (Agg.ofDict zipDoc) ['a'] none false
        (.ok (.node (.str ['#', 'v', '.', 'z', 'i', 'p']))) := by
  have h : Outcome zipDoc (Agg.ofDict zipDoc) ['a'] none false (.ok (.node (.str ['v']))) :=
    @outcome_of_eq zipDoc (Agg.ofDict zipDoc) ['a'] none false 3 _ rfl fun h => by cases h
  exact ⟨h, fun h' => by cases h.unique h'⟩

/-! ## Absence and non-strings behind a reference -/

/-- `k` is the template `{x}`, and `x` is `null`. -/
def nullRefDoc : List (List Char × Node) :=
  [(['x'], .str ['n', 'u', 'l', 'l']), (['k'], .str ['{', 'x', '}'])]

/-- The lookup of `k` that allows `None` still aborts: the token's lookup
does not. -/
theorem dblu_nullRefDoc :
    Outcome nullRefDoc (Agg.ofDict nullRefDoc) ['k'] none true
      (.error (.abort (.notFound ['x'] none))) :=
  @outcome_of_eq nullRefDoc (Agg.ofDict nullRefDoc) ['k'] none true 3 _ rfl fun h => by cases h

/-- `s` is `x{flag}`, and `flag` is `true`. -/
def flagDoc : List (List Char × Node) :=
  [(['f', 'l', 'a', 'g'], .str ['t', 'r', 'u', 'e']), (['s'], .str ['x', '{', 'f', 'l', 'a', 'g', '}'])]

/-- `True` reaches `str.replace`. -/
theorem dblu_flagDoc :
    Outcome flagDoc (Agg.ofDict flagDoc) ['s'] none false (.error .typeError) :=
  @outcome_of_eq flagDoc (Agg.ofDict flagDoc) ['s'] none false 3 _ rfl fun h => by cases h

end Database

end ArmPlat
