import ArmPlat.Python.Str
/-!
# Shell — paths: `sh.fmtpath` and `sh.url2dld`

Both normalise a path by replacing characters and then running
`while x+x in p: p = p.replace(x+x, x)`, with `x` a `/` in `fmtpath` and a
`_` in `url2dld`; that loop is `collapseRuns`, and it ends with no two `x`
in a row and no new character (`collapseRuns_spec`).

`fmtpath(p)` then holds no `\`, no `//`, and neither starts nor ends with
`/` (`fmtpath_shape`). `url2dld(url)` is one directory below the downloads
directory, whose name holds no `/`, no `:` and no `__`; and distinct URLs
share it, since a `:` and a `/` inside a URL both become `_`
(`url2dld_component`).
-/

namespace ArmPlat

namespace Shell

open Py

/-! ## The collapsing loop -/

/-- `while x+x in p: p = p.replace(x+x, x)`. -/
def collapseRuns (x : Char) (p : List Char) : List Char :=
  if [x, x] <:+: p then collapseRuns x (replace p [x, x] [x]) else p
termination_by p.length
decreasing_by exact length_replace_lt (by simp) ‹_›

/-- `while "//" in p: p = p.replace("//", "/")`, the loop of `fmtpath`. -/
def collapseSlashes (p : List Char) : List Char :=
  collapseRuns '/' p

theorem collapseSlashes_of_not_infix {p : List Char} (h : ¬ ['/', '/'] <:+: p) :
    collapseSlashes p = p := by
  rw [collapseSlashes, collapseRuns, if_neg h]

/-- **The loop's postcondition**: no two `x` in a row, and every character
of the result was in `p`. -/
theorem collapseRuns_spec (x : Char) (p : List Char) :
    ¬ [x, x] <:+: collapseRuns x p ∧ ∀ c ∈ collapseRuns x p, c ∈ p := by
  induction p using collapseRuns.induct x with
  | case1 p h ih =>
    rw [collapseRuns, if_pos h]
    refine ⟨ih.1, fun c hc => ?_⟩
    by_cases hcx : c = x
    · exact hcx ▸ h.subset (List.mem_cons_self x [x])
    · exact mem_of_mem_replace (List.cons_ne_nil _ _) (by simpa using hcx) (ih.2 c hc)
  | case2 p h =>
    rw [collapseRuns, if_neg h]
    exact ⟨h, fun _ hc => hc⟩

/-! ## `sh.fmtpath` -/

/-- `sh.fmtpath(p)`. -/
def fmtpath (p : List Char) : List Char :=
  rstrip (lstrip (strip (collapseSlashes (replace p ['\\'] ['/']))) '/') '/'

/-- `p.split("/")[-1]`. -/
def baseName (p : List Char) : List Char :=
  (p.splitOn '/').getLastD []

theorem not_mem_replace_single {s new : List Char} {a : Char} (h : a ∉ new) :
    a ∉ replace s [a] new := by
  rw [replace_single]
  simp only [List.mem_flatMap, not_exists, not_and]
  intro c _
  split
  · exact h
  · simpa [eq_comm] using ‹¬c = a›

/-- **What `fmtpath` returns**: no `\`, no `//`, and no `/` at either
end. -/
theorem fmtpath_shape (p : List Char) :
    '\\' ∉ fmtpath p ∧ ¬ ['/', '/'] <:+: fmtpath p ∧
      (fmtpath p).head? ≠ some '/' ∧ (fmtpath p).getLast? ≠ some '/' := by
  obtain ⟨hpair, hmem⟩ := collapseRuns_spec '/' (replace p ['\\'] ['/'])
  have hinner : fmtpath p <:+: collapseSlashes (replace p ['\\'] ['/']) :=
    (List.rdropWhile_prefix _ _).isInfix.trans ((List.dropWhile_suffix _).isInfix.trans
      ((List.rdropWhile_prefix _ _).isInfix.trans (List.dropWhile_suffix _).isInfix))
  refine ⟨fun h => not_mem_replace_single (by decide) (hmem _ (hinner.subset h)),
    fun h => hpair (h.trans hinner), fun h => ?_, fun h => ?_⟩
  · have hne : fmtpath p ≠ [] := fun h' => by simp [h'] at h
    have hpre : fmtpath p <+: lstrip (strip (collapseSlashes (replace p ['\\'] ['/']))) '/' :=
      List.rdropWhile_prefix _ _
    have hhead := List.head?_dropWhile_not (fun a => decide (a = '/'))
      (strip (collapseSlashes (replace p ['\\'] ['/'])))
    rw [← lstrip, List.head?_eq_head (hpre.ne_nil hne), ← hpre.head hne] at hhead
    rw [List.head?_eq_head hne, Option.some.injEq] at h
    simp [h] at hhead
  · have hne : fmtpath p ≠ [] := fun h' => by simp [h'] at h
    have := List.rdropWhile_last_not (p := fun a => decide (a = '/'))
      (l := lstrip (strip (collapseSlashes (replace p ['\\'] ['/']))) '/') hne
    rw [List.getLast?_eq_getLast _ hne] at h
    simp only [Option.some.injEq] at h
    exact this (by simpa [fmtpath, rstrip] using h)

/-! ## `sh.url2dld` -/

/-- `sh.url2dld(url)`, with `dld` for `sh.dld`. -/
def url2dld (dld url : List Char) : List Char :=
  dld ++ '/' :: collapseRuns '_' (replace (replace (rstrip (lstrip url '/') '/') [':'] ['_']) ['/'] ['_'])

theorem strip_ends {c e : Char} (hc : c ≠ '/') (he : e ≠ '/') (s : List Char) :
    rstrip (lstrip (c :: s ++ [e]) '/') '/' = c :: s ++ [e] := by
  rw [lstrip, List.cons_append, List.dropWhile_cons_of_neg (by simpa using hc), ← List.cons_append, rstrip,
    List.rdropWhile_concat_neg _ _ e (by simpa using he)]

/-- Inside a URL, a `:` and a `/` both become `_`. -/
theorem url2dld_colon_slash (dld a b : List Char) {c e : Char} (hc : c ≠ '/') (he : e ≠ '/') :
    url2dld dld (c :: a ++ ':' :: b ++ [e]) = url2dld dld (c :: a ++ '/' :: b ++ [e]) := by
  have h1 := strip_ends hc he (a ++ ':' :: b)
  have h2 := strip_ends hc he (a ++ '/' :: b)
  simp only [List.cons_append, List.append_assoc] at h1 h2
  simp only [url2dld, List.cons_append, List.append_assoc, h1, h2, replace_single, List.flatMap_cons,
    List.flatMap_append]
  simp

/-- **Each URL's downloads go one directory below `sh.dld`**, named
without `/`, `:` or `__`; and distinct URLs share it, since a `:` and a `/`
inside a URL both become `_`. -/
theorem url2dld_component (dld url : List Char) :
    (∃ p, url2dld dld url = dld ++ '/' :: p ∧ '/' ∉ p ∧ ':' ∉ p ∧ ¬ ['_', '_'] <:+: p) ∧
    ∀ (a b : List Char) (c e : Char), c ≠ '/' → e ≠ '/' →
      url2dld dld (c :: a ++ ':' :: b ++ [e]) = url2dld dld (c :: a ++ '/' :: b ++ [e]) := by
  obtain ⟨hpair, hmem⟩ := collapseRuns_spec '_'
    (replace (replace (rstrip (lstrip url '/') '/') [':'] ['_']) ['/'] ['_'])
  refine ⟨⟨_, rfl, fun h => not_mem_replace_single (by decide) (hmem _ h), fun h => ?_, hpair⟩,
    fun a b _ _ hc he => url2dld_colon_slash dld a b hc he⟩
  exact not_mem_replace_single (by decide)
    (mem_of_mem_replace (List.cons_ne_nil _ _) (by decide) (hmem _ h))

/-- A port's `:` and a `/` both become `_`. -/
example : url2dld ".downloads/".toList "host:8080/a".toList =
    url2dld ".downloads/".toList "host/8080/a".toList := rfl

end Shell

end ArmPlat
