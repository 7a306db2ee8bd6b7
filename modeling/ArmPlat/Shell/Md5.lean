import ArmPlat.Shell.Paths
/-!
# Shell — `sh.md5check`

`sh.md5check(p, sumsp)` looks for the checksum of `p` in the checksum file
at `sumsp` with `re.search(r"([^\s]+)\s+" + re.escape(name), sums)`, where
`name` is the last `/`-component of `p`, and compares group 1 of the first
match with the MD5 of `p`.

The pattern is anchored neither at a line start nor after the name, and
Python's engine takes the leftmost position where it matches. Over a
checksum text of lines `h sep f`, the match is the `h` of the first line
whose `f` starts with `name`, or the `f` of a line followed by one whose
`h` does, whichever comes first (`search_sumsText`). So the line for
`n.asc` listed before the line for `n` gives the checksum of `n.asc`
(`md5check_prefixName`).
-/

namespace ArmPlat

namespace Shell

open Py

/-! ## The pattern `([^\s]+)\s+name` -/

/-- Whether `\s+` then `name` matches at the start of `t`: some `w ≥ 1` of
its leading whitespace characters, then `name`. The engine tries the
longest run first; whether one succeeds does not depend on the order. -/
def spaceThen (name t : List Char) : Bool :=
  (List.range (t.takeWhile isSpace).length).any fun w => name.isPrefixOf (t.drop (w + 1))

/-- Group 1 matched at the start of `s`, its length tried from `l` down
to one. -/
def groupFrom (name s : List Char) : Nat → Option (List Char)
  | 0 => none
  | l + 1 => if spaceThen name (s.drop (l + 1)) then some (s.take (l + 1)) else groupFrom name s l

/-- The match at the start of `s`: `[^\s]+` is greedy, so the group is
tried from the whole run of non-whitespace characters down. -/
def matchAt (name s : List Char) : Option (List Char) :=
  groupFrom name s (s.takeWhile fun c => !isSpace c).length

/-- `re.search(r"([^\s]+)\s+" + re.escape(name), s).group(1)`: the match at
the leftmost position that has one. -/
def search (name : List Char) : List Char → Option (List Char)
  | [] => none
  | c :: cs => matchAt name (c :: cs) <|> search name cs

/-! ## The check -/

/-- What `sh.md5check(p, sumsp)` ends with. -/
inductive Md5Check where
  /-- `script.abort(f"no md5 for {name} in sumsfile {sumsp}", hard=False)`,
  which exits unless the script runs in QA mode, where `md5check` then
  returns `False`. -/
  | noMd5 (name sumsp : List Char)
  /-- `regex.group(1)` compared with the MD5: the answer is whether they
  are equal. -/
  | compared (sum : List Char) (equal : Bool)

/-- What `md5check` returns. -/
def Md5Check.result : Md5Check → Bool
  | noMd5 _ _ => false
  | compared _ equal => equal

/-- The text the soft abort logs. -/
def Md5Check.message : Md5Check → Option (List Char)
  | noMd5 name sumsp => some ("no md5 for ".toList ++ name ++ " in sumsfile ".toList ++ sumsp)
  | compared _ _ => none

/-- `sh.md5check(p, sumsp)`, given `md5 = sh.md5sum(p)` and the text `sums`
read from `sumsp`. -/
def md5check (md5 p sumsp sums : List Char) : Md5Check :=
  let p := fmtpath p
  let sumsp := fmtpath sumsp
  let name := baseName p
  match search name sums with
  | none => .noMd5 name sumsp
  | some h => .compared h (decide (h = md5))

/-! ## Over a checksum text -/

/-- No character `\s` matches. -/
def NoSpace (s : List Char) : Prop :=
  ∀ c ∈ s, isSpace c = false

/-- Only characters `\s` matches. -/
def Spaces (s : List Char) : Prop :=
  ∀ c ∈ s, isSpace c = true

instance : DecidablePred NoSpace := fun s => inferInstanceAs (Decidable (∀ c ∈ s, _))

instance : DecidablePred Spaces := fun s => inferInstanceAs (Decidable (∀ c ∈ s, _))

/-- A line `h sep f` of a checksum file: a checksum, whitespace, a file
name. -/
structure SumsLine (l : List Char × List Char × List Char) : Prop where
  sum_ne : l.1 ≠ []
  sum : NoSpace l.1
  sep_ne : l.2.1 ≠ []
  sep : Spaces l.2.1
  file_ne : l.2.2 ≠ []
  file : NoSpace l.2.2

/-- The text of a checksum file, one line `h sep f` and a newline each. -/
def sumsText (lines : List (List Char × List Char × List Char)) : List Char :=
  lines.flatMap fun (h, sep, f) => h ++ sep ++ f ++ ['\n']

/-- The checksum of the next line, empty at the end. -/
def nextSum (lines : List (List Char × List Char × List Char)) : List Char :=
  (lines.head?.map (·.1)).getD []

/-- Which group the search finds, line by line: the checksum of a line
whose file name starts with `name`, else the file name of a line whose
successor's checksum does. -/
def firstMatch (name : List Char) : List (List Char × List Char × List Char) → Option (List Char)
  | [] => none
  | (h, _, f) :: rest =>
    if name <+: f then some h else if name <+: nextSum rest then some f else firstMatch name rest

section Search

variable {name : List Char}

theorem spaceThen_cons_of_not_space {t : List Char} {c : Char} (hc : isSpace c = false) :
    spaceThen name (c :: t) = false := by
  simp [spaceThen, hc]

theorem spaceThen_spaces (hname : NoSpace name) {sep u : List Char} (hsep : sep ≠ [])
    (hs : Spaces sep) (hu : u.takeWhile isSpace = []) :
    spaceThen name (sep ++ u) = name.isPrefixOf u := by
  rw [Bool.eq_iff_iff, List.isPrefixOf_iff_prefix]
  simp only [spaceThen, List.takeWhile_append_of_pos hs, hu, List.append_nil, List.any_eq_true,
    List.mem_range, List.isPrefixOf_iff_prefix]
  constructor
  · rintro ⟨w, hw, hp⟩
    rcases Nat.lt_or_ge (w + 1) sep.length with hlt | hge
    · cases name with
      | nil => exact List.nil_prefix
      | cons a as =>
        rw [List.drop_append_of_le_length hlt.le, List.drop_eq_getElem_cons hlt, List.cons_append] at hp
        have ha : a = sep[w + 1] := (List.cons_prefix_cons.1 hp).1
        have := hs _ (List.getElem_mem hlt)
        rw [← ha, hname a (List.mem_cons_self a as)] at this
        cases this
    · rwa [show w + 1 = sep.length by omega, List.drop_left] at hp
  · intro hp
    refine ⟨sep.length - 1, by have := List.length_pos.2 hsep; omega, ?_⟩
    rwa [Nat.sub_add_cancel (List.length_pos.2 hsep), List.drop_left]

theorem groupFrom_inside {h t : List Char} (hh : NoSpace h) :
    ∀ l, l < h.length → groupFrom name (h ++ t) l = none
  | 0, _ => rfl
  | l + 1, hl => by
    rw [groupFrom, List.drop_append_of_le_length hl.le, List.drop_eq_getElem_cons hl,
      List.cons_append, spaceThen_cons_of_not_space (hh _ (List.getElem_mem hl))]
    exact groupFrom_inside hh l (by omega)

/-- The match at a run of non-whitespace characters ending where `t`
begins with whitespace or ends: the whole run, if `\s+name` follows. -/
theorem matchAt_word {h t : List Char} (hne : h ≠ []) (hh : NoSpace h)
    (ht : t.takeWhile (fun c => !isSpace c) = []) :
    matchAt name (h ++ t) = if spaceThen name t then some h else none := by
  obtain ⟨l, hl⟩ : ∃ l, h.length = l + 1 := Nat.exists_eq_succ_of_ne_zero (by simpa using hne)
  rw [matchAt, List.takeWhile_append_of_pos fun c hc => by simp [hh c hc], ht, List.append_nil, hl,
    groupFrom, ← hl, List.drop_left, List.take_left]
  split
  · rfl
  · exact groupFrom_inside hh l (by omega)

theorem search_word {t : List Char} (ht : t.takeWhile (fun c => !isSpace c) = []) :
    ∀ {h : List Char}, h ≠ [] → NoSpace h →
      search name (h ++ t) = ((if spaceThen name t then some h else none) <|> search name t)
  | [], hne, _ => absurd rfl hne
  | [c], _, hh => by
    rw [List.singleton_append, search, ← List.singleton_append, matchAt_word (List.cons_ne_nil c [])
      hh ht]
  | c :: d :: h, _, hh => by
    rw [List.cons_append, search, ← List.cons_append, matchAt_word (List.cons_ne_nil c _) hh ht,
      search_word ht (List.cons_ne_nil d h) fun x hx => hh x (List.mem_cons_of_mem c hx)]
    split <;> rfl

theorem search_spaces {t : List Char} : ∀ {w : List Char}, Spaces w →
    search name (w ++ t) = search name t
  | [], _ => rfl
  | c :: w, hw => by
    have hc : (c :: (w ++ t)).takeWhile (fun c => !isSpace c) = [] := by
      simp [hw c (List.mem_cons_self c w)]
    rw [List.cons_append, search, matchAt, hc]
    exact search_spaces fun x hx => hw x (List.mem_cons_of_mem c hx)

theorem prefix_append_space (hname : NoSpace name) {f u : List Char} {b : Char}
    (hb : isSpace b = true) : name <+: f ++ b :: u ↔ name <+: f := by
  refine ⟨fun hp => ?_, fun hp => hp.trans (List.prefix_append f _)⟩
  rcases Nat.lt_or_ge f.length name.length with hlt | hle
  · have hfb : f ++ [b] <+: name :=
      List.prefix_of_prefix_length_le (by simp) hp
        (by rw [List.length_append, List.length_singleton]; exact hlt)
    have := hname b (hfb.subset (by simp))
    rw [hb] at this
    cases this
  · exact List.prefix_of_prefix_length_le hp (List.prefix_append f _) hle

theorem sumsText_cons (h sep f : List Char) (lines : List (List Char × List Char × List Char)) :
    sumsText ((h, sep, f) :: lines) = h ++ (sep ++ (f ++ '\n' :: sumsText lines)) := by
  simp [sumsText]

section Lines

variable {lines : List (List Char × List Char × List Char)}

theorem takeWhile_sumsText (hl : ∀ l ∈ lines, SumsLine l) :
    (sumsText lines).takeWhile isSpace = [] := by
  cases lines with
  | nil => rfl
  | cons l lines =>
    obtain ⟨h, sep, f⟩ := l
    have hl0 := hl _ (List.mem_cons_self _ _)
    obtain ⟨c, h, rfl⟩ := List.exists_cons_of_ne_nil hl0.sum_ne
    simp [sumsText_cons, hl0.sum c (List.mem_cons_self c h)]

theorem prefix_sumsText_iff (hname : NoSpace name) (hl : ∀ l ∈ lines, SumsLine l) :
    name <+: sumsText lines ↔ name <+: nextSum lines := by
  cases lines with
  | nil => rfl
  | cons l lines =>
    obtain ⟨h, sep, f⟩ := l
    have hl0 := hl _ (List.mem_cons_self _ _)
    obtain ⟨b, sep, rfl⟩ := List.exists_cons_of_ne_nil hl0.sep_ne
    rw [sumsText_cons, List.cons_append]
    exact prefix_append_space hname (hl0.sep b (List.mem_cons_self b sep))

/-- **What the search finds in a checksum file.** For a name without
whitespace, the leftmost match of `([^\s]+)\s+name` in the text of
well-formed lines is read off line by line by `firstMatch`. -/
theorem search_sumsText (hname : NoSpace name) :
    ∀ {lines : List (List Char × List Char × List Char)}, (∀ l ∈ lines, SumsLine l) →
      search name (sumsText lines) = firstMatch name lines
  | [], _ => rfl
  | (h, sep, f) :: lines, hl => by
    have hl0 := hl _ (List.mem_cons_self _ _)
    have hrest : ∀ l ∈ lines, SumsLine l := fun l hm => hl l (List.mem_cons_of_mem _ hm)
    obtain ⟨b, sep', hsep⟩ : ∃ b sep', sep = b :: sep' := List.exists_cons_of_ne_nil hl0.sep_ne
    have hnl : isSpace '\n' = true := by decide
    have hsepw : (sep ++ (f ++ '\n' :: sumsText lines)).takeWhile (fun c => !isSpace c) = [] := by
      simp [hsep, hl0.sep b (by simp [hsep])]
    have hfw : (f ++ '\n' :: sumsText lines).takeWhile isSpace = [] := by
      obtain ⟨c, f', hf⟩ : ∃ c f', f = c :: f' := List.exists_cons_of_ne_nil hl0.file_ne
      simp [hf, hl0.file c (by simp [hf])]
    have hs1 : spaceThen name ('\n' :: sumsText lines) = name.isPrefixOf (sumsText lines) :=
      @spaceThen_spaces name hname ['\n'] (sumsText lines) (List.cons_ne_nil _ _)
        (by simp [Spaces, hnl]) (takeWhile_sumsText hrest)
    have hs2 : search name ('\n' :: sumsText lines) = search name (sumsText lines) :=
      @search_spaces name (sumsText lines) ['\n'] (by simp [Spaces, hnl])
    rw [sumsText_cons, search_word hsepw hl0.sum_ne hl0.sum, search_spaces hl0.sep,
      search_word (by simp [hnl]) hl0.file_ne hl0.file,
      spaceThen_spaces hname hl0.sep_ne hl0.sep hfw, hs1, hs2, search_sumsText hname hrest, firstMatch]
    simp only [List.isPrefixOf_iff_prefix, prefix_append_space hname hnl,
      prefix_sumsText_iff hname hrest]
    split_ifs <;> rfl

end Lines

end Search

/-- **What `md5check` compares.** For a base name without whitespace and a
checksum file of well-formed lines, the checksum compared is the one
`firstMatch` picks, and the check reports no checksum only when it picks
none. -/
theorem md5check_sumsText (md5 p sumsp : List Char) {lines : List (List Char × List Char × List Char)}
    (hl : ∀ l ∈ lines, SumsLine l) (hname : NoSpace (baseName (fmtpath p))) :
    md5check md5 p sumsp (sumsText lines) =
      match firstMatch (baseName (fmtpath p)) lines with
      | none => .noMd5 (baseName (fmtpath p)) (fmtpath sumsp)
      | some h => .compared h (decide (h = md5)) := by
  rw [md5check, search_sumsText hname hl]

/-- `dl/n` against the single line `h n`, whose checksum is the MD5. -/
theorem md5check_dlName :
    (∀ l ∈ [("h".toList, " ".toList, "n".toList)], SumsLine l) ∧
      NoSpace (baseName (fmtpath "dl/n".toList)) ∧
      md5check "h".toList "dl/n".toList "s".toList (sumsText [("h".toList, " ".toList, "n".toList)]) =
        .compared "h".toList true := by
  have hl : ∀ l ∈ [("h".toList, " ".toList, "n".toList)], SumsLine l := fun l hl => by
    rw [List.mem_singleton.1 hl]
    exact ⟨by decide, by decide, by decide, by decide, by decide, by decide⟩
  have hp : fmtpath "dl/n".toList = "dl/n".toList := by
    rw [fmtpath, show replace "dl/n".toList ['\\'] ['/'] = "dl/n".toList from rfl,
      collapseSlashes_of_not_infix (by decide)]
    rfl
  have hn : NoSpace (baseName (fmtpath "dl/n".toList)) := by
    rw [hp]
    decide
  exact ⟨hl, hn, (md5check_sumsText "h".toList _ _ hl hn).trans (by rw [hp]; rfl)⟩

/-- The checksum of `n.asc`, on the line before that of `n`, is the one
compared; and it is compared even when no line is for `n`. -/
theorem md5check_prefixName (md5 sumsp : List Char) :
    md5check md5 "n".toList sumsp "h1 n.asc\nh2 n\n".toList =
        .compared "h1".toList (decide ("h1".toList = md5)) ∧
      md5check md5 "n".toList sumsp "h1 n.asc\n".toList =
        .compared "h1".toList (decide ("h1".toList = md5)) := by
  have hp : fmtpath "n".toList = "n".toList := by
    rw [fmtpath, show replace "n".toList ['\\'] ['/'] = "n".toList from rfl,
      collapseSlashes_of_not_infix (by decide)]
    rfl
  simp only [md5check, hp]
  exact ⟨rfl, rfl⟩

end Shell

end ArmPlat
