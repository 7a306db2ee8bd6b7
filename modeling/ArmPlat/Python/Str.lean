import Mathlib.Data.List.Infix
import Mathlib.Data.List.Sort
import Mathlib.Data.List.Dedup
import Mathlib.Data.List.DropRight
/-!
# Python strings, as the script reads them

A Python `str` is a sequence of code points, so it is a `List Char` here,
and the `str` methods the script calls are written out with Python's
meaning: `find` answers `-1` for a missing character, a slice clamps its
bounds and counts negative ones from the end, and `replace` scans left to
right for non-overlapping occurrences, putting the replacement between
every two characters when the pattern is empty.

What the lookup needs of them is counting: a `replace` whose pattern holds
a `{` and whose replacement holds none takes at least one `{` out of a
string the pattern occurs in (`count_replace_lt`), and it never takes out
more `}` than `{` when the pattern holds no more `}` than `{`
(`count_replace_add_le`).

The menus sort keys as Python compares `str`s, code point by code point.
-/

namespace ArmPlat

namespace Py

/-- `s.find(c)`: the index of the first `c`, or `-1`. -/
def find (s : List Char) (c : Char) : Int :=
  if c ∈ s then s.indexOf c else -1

/-- A slice bound, as Python normalises it against the length. -/
def sliceBound (len : Nat) (i : Int) : Nat :=
  if i < 0 then (i + len).toNat else min i.toNat len

/-- `s[i:j]`. -/
def slice (s : List Char) (i j : Int) : List Char :=
  (s.drop (sliceBound s.length i)).take (sliceBound s.length j - sliceBound s.length i)

/-- `s.startswith(p)`. -/
def startswith (s p : List Char) : Bool :=
  p.isPrefixOf s

/-- The scan of `str.replace` for a non-empty pattern; `skip` characters of
an occurrence just replaced are still to be passed over. -/
def replaceScan (old new : List Char) : Nat → List Char → List Char
  | _, [] => []
  | skip + 1, _ :: cs => replaceScan old new skip cs
  | 0, c :: cs =>
    if old <+: c :: cs then new ++ replaceScan old new (old.length - 1) cs
    else c :: replaceScan old new 0 cs

/-- `s.replace(old, new)`. -/
def replace (s old new : List Char) : List Char :=
  if old = [] then new ++ s.flatMap (· :: new) else replaceScan old new 0 s

/-! ## Finding and slicing -/

theorem find_append_cons {pre post : List Char} {c : Char} (h : c ∉ pre) :
    find (pre ++ c :: post) c = pre.length := by
  simp [find, List.indexOf_append_of_not_mem h, List.indexOf_cons_self]

/-- Between two bounds inside the string, a slice is a `drop` and a `take`. -/
theorem slice_of_le {s : List Char} {i j : Nat} (hi : i ≤ s.length) (hj : j ≤ s.length) :
    slice s i j = (s.drop i).take (j - i) := by
  have hi' : ¬ (i : Int) < 0 := by omega
  have hj' : ¬ (j : Int) < 0 := by omega
  simp [slice, sliceBound, hi, hj, hi', hj']

theorem startswith_iff {s p : List Char} : startswith s p = true ↔ p <+: s :=
  List.isPrefixOf_iff_prefix

/-- `s.endswith(p)`. -/
def endswith (s p : List Char) : Bool :=
  p.isSuffixOf s

theorem endswith_iff {s p : List Char} : endswith s p = true ↔ p <:+ s :=
  List.isSuffixOf_iff_suffix

/-! ## Replacing -/

section Replace

variable {old new : List Char}

/-- After an occurrence at the head, the scan resumes where it ends. -/
theorem drop_of_append_eq_cons {rest cs : List Char} {c : Char} (hne : old ≠ [])
    (h : old ++ rest = c :: cs) : cs.drop (old.length - 1) = rest := by
  cases old with
  | nil => exact absurd rfl hne
  | cons o os =>
    simp only [List.cons_append, List.cons.injEq] at h
    simp [← h.2]

theorem replaceScan_skip (skip : Nat) (s : List Char) :
    replaceScan old new skip s = replaceScan old new 0 (s.drop skip) := by
  induction skip, s using replaceScan.induct old new with
  | case1 skip => cases skip <;> rfl
  | case2 skip c cs ih => simpa [replaceScan] using ih
  | case3 | case4 => rfl

/-- The characters a replacement removes and the ones it adds: with
`count x new = 0`, each occurrence takes out `count x old` of `x` and puts
`count y new - count y old` of `y` in, so `x` loses no less than `y` when
`count y old ≤ count x old`. -/
theorem count_replaceScan_add_le {x y : Char} (hold : old.count y ≤ old.count x)
    (hne : old ≠ []) (hnew : new.count x = 0) (skip : Nat) (s : List Char) :
    (replaceScan old new skip s).count x + (s.drop skip).count y ≤
      (s.drop skip).count x + (replaceScan old new skip s).count y := by
  induction skip, s using replaceScan.induct old new with
  | case1 => simp [replaceScan]
  | case2 _ _ _ ih => simpa [replaceScan] using ih
  | case3 c cs hp ih =>
    obtain ⟨rest, hrest⟩ := hp
    rw [drop_of_append_eq_cons hne hrest] at ih
    rw [replaceScan, if_pos ⟨rest, hrest⟩, ← hrest]
    simp only [List.drop_zero, List.count_append, hnew]
    omega
  | case4 c cs hp ih =>
    rw [replaceScan, if_neg hp]
    simp only [List.drop_zero, List.count_cons] at ih ⊢
    split <;> split <;> omega

theorem count_replaceScan_le {x : Char} (hnew : new.count x = 0) (skip : Nat) (s : List Char) :
    (replaceScan old new skip s).count x ≤ (s.drop skip).count x := by
  induction skip, s using replaceScan.induct old new with
  | case1 => simp [replaceScan]
  | case2 _ _ _ ih => simpa [replaceScan] using ih
  | case3 c cs hp ih =>
    have := (List.drop_sublist (old.length - 1) cs).count_le x
    rw [replaceScan, if_pos hp, List.count_append, hnew]
    simp only [List.drop_zero, List.count_cons]
    omega
  | case4 c cs hp ih =>
    rw [replaceScan, if_neg hp]
    simp only [List.drop_zero, List.count_cons] at ih ⊢
    omega

/-- **A replacement that removes an `x` and adds none makes progress**
wherever its pattern occurs. -/
theorem count_replaceScan_lt {x : Char} (hx : x ∈ old) (hnew : new.count x = 0) :
    ∀ s : List Char, old <:+: s → (replaceScan old new 0 s).count x < s.count x
  | [], h => absurd (List.eq_nil_of_infix_nil h) (List.ne_nil_of_mem hx)
  | c :: cs, h => by
    by_cases hp : old <+: c :: cs
    · obtain ⟨rest, hrest⟩ := hp
      have hle : (replaceScan old new (old.length - 1) cs).count x ≤ _ :=
        count_replaceScan_le hnew _ _
      have hpos := List.count_pos_iff.2 hx
      rw [drop_of_append_eq_cons (List.ne_nil_of_mem hx) hrest] at hle
      rw [replaceScan, if_pos ⟨rest, hrest⟩, List.count_append, hnew, ← hrest, List.count_append]
      omega
    · have ih := count_replaceScan_lt hx hnew cs ((List.infix_cons_iff.1 h).resolve_left hp)
      rw [replaceScan, if_neg hp]
      simp only [List.count_cons]
      omega

theorem length_replaceScan_le (hlen : new.length ≤ old.length) (hne : old ≠ []) (skip : Nat)
    (s : List Char) : (replaceScan old new skip s).length ≤ (s.drop skip).length := by
  induction skip, s using replaceScan.induct old new with
  | case1 => simp [replaceScan]
  | case2 _ _ _ ih => simpa [replaceScan] using ih
  | case3 c cs hp ih =>
    obtain ⟨rest, hrest⟩ := hp
    rw [drop_of_append_eq_cons hne hrest] at ih
    rw [replaceScan, if_pos ⟨rest, hrest⟩, ← hrest]
    simp only [List.drop_zero, List.length_append]
    omega
  | case4 c cs hp ih =>
    rw [replaceScan, if_neg hp]
    simp only [List.drop_zero, List.length_cons] at ih ⊢
    omega

/-- A pattern longer than its replacement shortens every string it occurs in. -/
theorem length_replaceScan_lt (hlen : new.length < old.length) :
    ∀ s : List Char, old <:+: s → (replaceScan old new 0 s).length < s.length
  | [], h => by simp [List.eq_nil_of_infix_nil h] at hlen
  | c :: cs, h => by
    have hne : old ≠ [] := fun h => by simp [h] at hlen
    by_cases hp : old <+: c :: cs
    · obtain ⟨rest, hrest⟩ := hp
      have hle : (replaceScan old new (old.length - 1) cs).length ≤ _ :=
        length_replaceScan_le hlen.le hne _ _
      rw [drop_of_append_eq_cons hne hrest] at hle
      rw [replaceScan, if_pos ⟨rest, hrest⟩, List.length_append, ← hrest, List.length_append]
      omega
    · have ih := length_replaceScan_lt hlen cs ((List.infix_cons_iff.1 h).resolve_left hp)
      rw [replaceScan, if_neg hp]
      simp only [List.length_cons]
      omega

theorem length_replace_lt (hlen : new.length < old.length) {s : List Char} (h : old <:+: s) :
    (replace s old new).length < s.length := by
  have hne : old ≠ [] := fun h => by simp [h] at hlen
  simpa [replace, hne] using length_replaceScan_lt hlen s h

theorem count_replace_add_le {x y : Char} (hold : old.count y ≤ old.count x) (hne : old ≠ [])
    (hnew : new.count x = 0) (s : List Char) :
    (replace s old new).count x + s.count y ≤ s.count x + (replace s old new).count y := by
  simpa [replace, hne] using count_replaceScan_add_le hold hne hnew 0 s

/-- A replacement that adds no `x` adds no occurrence of `x`. -/
theorem mem_of_mem_replace {x : Char} (hne : old ≠ []) (hx : x ∉ new) {s : List Char}
    (h : x ∈ replace s old new) : x ∈ s := by
  have hle := @count_replaceScan_le old new x (List.count_eq_zero.2 hx) 0 s
  rw [List.drop_zero] at hle
  rw [replace, if_neg hne] at h
  exact List.count_pos_iff.1 ((List.count_pos_iff.2 h).trans_le hle)

theorem count_replace_lt {x : Char} (hx : x ∈ old) (hnew : new.count x = 0) {s : List Char}
    (h : old <:+: s) : (replace s old new).count x < s.count x := by
  have hne : old ≠ [] := List.ne_nil_of_mem hx
  simpa [replace, hne] using count_replaceScan_lt hx hnew s h

/-! ## Replacing a token in a template -/

/-- A single character is replaced wherever it stands. -/
theorem replace_single (s : List Char) (a : Char) (new : List Char) :
    replace s [a] new = s.flatMap fun c => if c = a then new else [c] := by
  rw [replace, if_neg (List.cons_ne_nil a [])]
  induction s with
  | nil => rfl
  | cons c cs ih =>
    by_cases h : c = a
    · subst h
      simp [replaceScan, ih]
    · have hp : ¬ [a] <+: c :: cs := fun hp => h (List.cons_prefix_cons.1 hp).1.symm
      simp [replaceScan, hp, ih, h]

/-- No occurrence of a pattern starts inside text without its first
character. -/
theorem replaceScan_append_of_not_mem {o : Char} {os new t : List Char} (ht : o ∉ t)
    (rest : List Char) :
    replaceScan (o :: os) new 0 (t ++ rest) = t ++ replaceScan (o :: os) new 0 rest := by
  induction t with
  | nil => rfl
  | cons c t ih =>
    have hp : ¬ o :: os <+: c :: (t ++ rest) := fun hp =>
      ht ((List.cons_prefix_cons.1 hp).1 ▸ List.mem_cons_self c t)
    rw [List.cons_append, replaceScan, if_neg hp, ih (fun h => ht (List.mem_cons_of_mem c h))]
    rfl

/-- Two texts without `c`, each followed by `c`: one is a prefix of the
other only if they are equal. -/
theorem eq_of_prefix_delimited {c : Char} :
    ∀ {x y rest : List Char}, c ∉ x → c ∉ y → x ++ [c] <+: y ++ c :: rest → x = y
  | [], [], _, _, _, _ => rfl
  | [], b :: y, _, _, hy, h => by
    simp only [List.nil_append, List.cons_append, List.cons_prefix_cons] at h
    exact absurd (h.1 ▸ List.mem_cons_self b y) hy
  | a :: x, [], _, hx, _, h => by
    simp only [List.nil_append, List.cons_append, List.cons_prefix_cons] at h
    exact absurd (h.1 ▸ List.mem_cons_self a x) hx
  | a :: x, b :: y, _, hx, hy, h => by
    simp only [List.cons_append, List.cons_prefix_cons] at h
    obtain ⟨rfl, h⟩ := h
    rw [eq_of_prefix_delimited (fun h => hx (List.mem_cons_of_mem a h))
      (fun h => hy (List.mem_cons_of_mem a h)) h]

/-- **Replacing a token `{x}`** in a token `{y}`: the value if `y = x`,
the token unchanged otherwise. -/
theorem replaceScan_token {new x y : List Char} (hx : '}' ∉ x) (hy : '{' ∉ y) (hy' : '}' ∉ y)
    (rest : List Char) :
    replaceScan ('{' :: (x ++ ['}'])) new 0 ('{' :: (y ++ '}' :: rest)) =
      (if y = x then new else '{' :: (y ++ ['}'])) ++
        replaceScan ('{' :: (x ++ ['}'])) new 0 rest := by
  by_cases hxy : y = x
  · subst hxy
    rw [replaceScan, if_pos (by simp), if_pos rfl, replaceScan_skip]
    simp
  · have hp : ¬ '{' :: (x ++ ['}']) <+: '{' :: (y ++ '}' :: rest) := fun hp =>
      hxy (eq_of_prefix_delimited hx hy' (by simpa using hp)).symm
    have hr : ¬ '{' :: (x ++ ['}']) <+: '}' :: rest := fun hp => by
      simpa using (List.cons_prefix_cons.1 hp).1
    rw [replaceScan, if_neg hp, replaceScan_append_of_not_mem hy, replaceScan, if_neg hr, if_neg hxy]
    simp

end Replace

/-! ## Comparing and sorting -/

/-- `a <= b` on `str`: code points, lexicographically. -/
def strLe : List Char → List Char → Bool
  | [], _ => true
  | _ :: _, [] => false
  | a :: s, b :: t => decide (a.toNat < b.toNat) || (decide (a = b) && strLe s t)

theorem strLe_total : ∀ a b : List Char, strLe a b = true ∨ strLe b a = true
  | [], _ => .inl rfl
  | _ :: _, [] => .inr rfl
  | a :: s, b :: t => by
    rcases Nat.lt_trichotomy a.toNat b.toNat with h | h | h
    · simp [strLe, h]
    · obtain rfl : a = b := by rw [← Char.ofNat_toNat a, h, Char.ofNat_toNat]
      simpa [strLe] using strLe_total s t
    · simp [strLe, h]

theorem strLe_trans : ∀ {a b c : List Char}, strLe a b = true → strLe b c = true → strLe a c = true
  | [], _, _, _, _ => rfl
  | _ :: _, [], _, h, _ => by simp [strLe] at h
  | _ :: _, _ :: _, [], _, h => by simp [strLe] at h
  | x :: s, y :: t, z :: u, h1, h2 => by
    simp only [strLe, Bool.or_eq_true, decide_eq_true_eq, Bool.and_eq_true] at *
    rcases h1 with h1 | ⟨rfl, h1⟩ <;> rcases h2 with h2 | ⟨rfl, h2⟩
    · exact .inl (h1.trans h2)
    · exact .inl h1
    · exact .inl h2
    · exact .inr ⟨rfl, strLe_trans h1 h2⟩

instance : IsTotal (List Char) fun a b => strLe a b = true := ⟨strLe_total⟩

instance : IsTrans (List Char) fun a b => strLe a b = true := ⟨fun _ _ _ => strLe_trans⟩

/-- `sorted(list(set(keys)))`. -/
def sortedSet (keys : List (List Char)) : List (List Char) :=
  keys.dedup.insertionSort fun a b => strLe a b = true

example : sortedSet ["bc".toList, "b".toList, "a".toList, "b".toList] =
    ["a".toList, "b".toList, "bc".toList] := by decide

@[simp] theorem mem_sortedSet {keys : List (List Char)} {k : List Char} :
    k ∈ sortedSet keys ↔ k ∈ keys :=
  (List.perm_insertionSort _ _).mem_iff.trans List.mem_dedup

theorem nodup_sortedSet (keys : List (List Char)) : (sortedSet keys).Nodup :=
  (List.perm_insertionSort _ _).nodup_iff.2 (List.nodup_dedup keys)

/-! ## Whitespace and paths -/

/-- `c.isspace()`, which is also what `\s` matches in a `str` pattern. -/
def isSpace (c : Char) : Bool :=
  decide (c.toNat ∈ [0x09, 0x0a, 0x0b, 0x0c, 0x0d, 0x1c, 0x1d, 0x1e, 0x1f, 0x20, 0x85, 0xa0,
    0x1680, 0x2028, 0x2029, 0x202f, 0x205f, 0x3000]) ||
  decide (0x2000 ≤ c.toNat ∧ c.toNat ≤ 0x200a)

/-- `s.strip()`. -/
def strip (s : List Char) : List Char :=
  (s.dropWhile isSpace).rdropWhile isSpace

/-- `s.lstrip(c)`, for one character. -/
def lstrip (s : List Char) (c : Char) : List Char :=
  s.dropWhile fun a => decide (a = c)

/-- `s.rstrip(c)`, for one character. -/
def rstrip (s : List Char) (c : Char) : List Char :=
  s.rdropWhile fun a => decide (a = c)

end Py

end ArmPlat
