import ArmPlat.Python.Str
import Mathlib.Data.List.Lex
/-!
# The host checks: `check_sys_gcc` and `check_git_config`

`check_sys_gcc` splits the output of `gcc -dumpversion` at `.`, reads each
part with `int`, and compares the tuple with `(5,4,0)` and `(8,0,0)` as
Python compares tuples: the first differing items decide, and a proper
prefix is the smaller (`tupleLt_iff_lex`). A part that `int` rejects
raises `ValueError` before any comparison.

On a version printed as numbers joined by `.`, that is the window its
message states, `5.4 ≤ a.b < 8`, only for three numbers or more. A gcc that
prints its major version alone, or a major and a minor, is compared as a
shorter tuple, and a prefix is the smaller: `8` and `8.0` pass, `5.4`
fails. A rejected version of fewer than three numbers does not reach the
abort, since the message reads `ver[1]` and `ver[2]`: it raises
`IndexError` (`checkSysGcc_window`).

`check_git_config` tests `setting in cfg` on the whole text `git config -l`
prints, so a name that occurs only in another key or in a value passes
(`checkGitConfig_spec`).
-/

namespace ArmPlat

namespace Host

open Py

/-- Python's `<` on tuples of `int`: at the first index where the items
differ they decide, and when one tuple runs out first it is the smaller. -/
def tupleLt : List Int → List Int → Bool
  | [], [] => false
  | [], _ :: _ => true
  | _ :: _, [] => false
  | a :: as, b :: bs => if a = b then tupleLt as bs else decide (a < b)

@[simp]
theorem tupleLt_nil_right (as : List Int) : tupleLt as [] = false := by
  cases as <;> rfl

@[simp]
theorem tupleLt_nil_cons (b : Int) (bs : List Int) : tupleLt [] (b :: bs) = true := rfl

@[simp]
theorem tupleLt_cons_cons {a b : Int} {as bs : List Int} :
    tupleLt (a :: as) (b :: bs) = true ↔ a < b ∨ a = b ∧ tupleLt as bs = true := by
  rw [tupleLt]
  by_cases hab : a = b
  · simp [hab]
  · simp [hab]

/-- Python's tuple order is the lexicographic order on the items. -/
theorem tupleLt_iff_lex : ∀ as bs : List Int, tupleLt as bs = true ↔ List.Lex (· < ·) as bs
  | [], [] => iff_of_false Bool.false_ne_true (List.Lex.not_nil_right _ _)
  | [], _ :: _ => iff_of_true rfl .nil
  | _ :: _, [] => iff_of_false Bool.false_ne_true (List.Lex.not_nil_right _ _)
  | a :: as, b :: bs => by
    by_cases hab : a = b
    · subst hab
      rw [tupleLt, if_pos rfl, tupleLt_iff_lex as bs, List.Lex.cons_iff]
    · rw [tupleLt, if_neg hab, decide_eq_true_iff]
      exact ⟨.rel, fun | .cons _ => absurd rfl hab | .rel h => h⟩

/-! ## `int` -/

/-- The value of a run of decimal digits. -/
def digitValue (ds : List Char) : Nat :=
  ds.foldl (fun n c => 10 * n + (c.toNat - '0'.toNat)) 0

/-- A leading sign: whether it is `-`, and what follows it. -/
def sign : List Char → Bool × List Char
  | c :: r => if c = '-' then (true, r) else if c = '+' then (false, r) else (false, c :: r)
  | [] => (false, [])

/-- `int(s)` of a `str`, in base 10: blanks around it, a sign, and runs of
decimal digits joined by single `_`; `none` where `int` raises `ValueError`.
(`int` also reads the decimal digits of other scripts, which this model
does not.) -/
def pyInt? (s : List Char) : Option Int :=
  let (neg, body) := sign (strip s)
  if (body.splitOn '_').all fun g => !g.isEmpty && g.all Char.isDigit then
    some (if neg then -(digitValue (body.filter (· != '_')) : Int) else digitValue (body.filter (· != '_')))
  else none

example : pyInt? " -5_4 ".toList = some (-54) ∧ pyInt? "5__4".toList = none ∧ pyInt? "".toList = none := by
  decide

theorem isSpace_of_isDigit {c : Char} (h : c.isDigit = true) : isSpace c = false := by
  simp only [Char.isDigit, Bool.and_eq_true, decide_eq_true_eq] at h
  have h1 : 48 ≤ c.toNat := h.1
  have h2 : c.toNat ≤ 57 := h.2
  simp only [isSpace, List.mem_cons, List.not_mem_nil, or_false, Bool.or_eq_false_iff,
    decide_eq_false_iff_not, not_or, not_and, not_le]
  omega

/-- `int` of a run of decimal digits is its value. -/
theorem pyInt?_digits {p : List Char} (hp : p ≠ []) (hd : p.all Char.isDigit = true) :
    pyInt? p = some ((digitValue p : Nat) : Int) := by
  have hdig : ∀ c ∈ p, c.isDigit = true := List.all_eq_true.1 hd
  have hstrip : strip p = p := by
    rw [strip, List.dropWhile_eq_self_iff.2 fun hl => by
      simp [isSpace_of_isDigit (hdig _ (List.getElem_mem hl))]]
    exact List.rdropWhile_eq_self_iff.2 fun hl => by simp [isSpace_of_isDigit (hdig _ (List.getLast_mem hl))]
  obtain ⟨c, r, rfl⟩ := List.exists_cons_of_ne_nil hp
  have hc := hdig c (List.mem_cons_self c r)
  have hsign : sign (c :: r) = (false, c :: r) := by
    rw [sign, if_neg (by rintro rfl; cases hc), if_neg (by rintro rfl; cases hc)]
  have hu : '_' ∉ c :: r := fun h => by cases hdig _ h
  have hsplit : (c :: r).splitOn '_' = [c :: r] := by
    simpa [List.intercalate] using List.splitOn_intercalate [c :: r] '_' (by simpa using hu) (by simp)
  have hfilter : (c :: r).filter (· != '_') = c :: r :=
    List.filter_eq_self.2 fun a ha => by simpa using fun h : a = '_' => hu (h ▸ ha)
  simp only [pyInt?, hstrip, hsign, hsplit, hfilter, List.all_cons, List.all_nil, List.isEmpty_cons,
    Bool.not_false, hd, Bool.and_self, if_true, Bool.false_eq_true, if_false]

/-! ## `check_sys_gcc` -/

/-- How `check_sys_gcc` can fail. -/
inductive GccFault where
  /-- `int` of a part that is not a number. -/
  | valueError
  /-- `ver[1]` or `ver[2]` of a shorter tuple. -/
  | indexError
  /-- `script.abort` with the message. -/
  | abort (msg : List Char)
  deriving DecidableEq, Repr

/-- `tuple([int(i) for i in out.split(".")])`. -/
def gccVersion (out : List Char) : Except GccFault (List Int) :=
  (out.splitOn '.').mapM fun i => match pyInt? i with
    | some n => .ok n
    | none => .error .valueError

/-- `str(n)` of an `int`. -/
def intStr (n : Int) : List Char :=
  if n < 0 then '-' :: Nat.toDigits 10 n.natAbs else Nat.toDigits 10 n.toNat

/-- The abort message of `check_sys_gcc`. -/
def gccMessage (a b c : Int) : List Char :=
  "detected system native gcc version ".toList ++ intStr a ++ '.' :: intStr b ++
    '.' :: intStr c ++ ", please use a version later than 5.4 and earlier than 8.0".toList

/-- `script.abort` with the message, which reads `ver[0]`, `ver[1]` and
`ver[2]` first. -/
def gccAbort : List Int → Except GccFault Unit
  | a :: b :: c :: _ => .error (.abort (gccMessage a b c))
  | _ => .error .indexError

theorem gccAbort_ne_ok (ver : List Int) : gccAbort ver ≠ .ok () := by
  match ver with
  | _ :: _ :: _ :: _ => nofun
  | [] | [_] | [_, _] => nofun

/-- `check_sys_gcc`, on the stripped output of `gcc -dumpversion`. -/
def checkSysGcc (out : List Char) : Except GccFault Unit :=
  gccVersion out >>= fun ver =>
    if tupleLt ver [5, 4, 0] || !tupleLt ver [8, 0, 0] then gccAbort ver else .ok ()

theorem checkSysGcc_of_version {out : List Char} {ver : List Int} (hv : gccVersion out = .ok ver) :
    checkSysGcc out =
      if tupleLt ver [5, 4, 0] || !tupleLt ver [8, 0, 0] then gccAbort ver else .ok () := by
  rw [checkSysGcc, hv]
  rfl

theorem checkSysGcc_eq_ok_iff {out : List Char} {ver : List Int} (hv : gccVersion out = .ok ver) :
    checkSysGcc out = .ok () ↔ tupleLt ver [5, 4, 0] = false ∧ tupleLt ver [8, 0, 0] = true := by
  rw [checkSysGcc_of_version hv]
  split
  · rename_i h
    exact iff_of_false (gccAbort_ne_ok ver) fun ⟨h1, h2⟩ => by simp [h1, h2] at h
  · rename_i h
    simpa using h

theorem checkSysGcc_of_ne_ok {out : List Char} {ver : List Int} (hv : gccVersion out = .ok ver)
    (hne : checkSysGcc out ≠ .ok ()) : checkSysGcc out = gccAbort ver := by
  rw [checkSysGcc_of_version hv] at hne ⊢
  split
  · rfl
  · rename_i h
    exact absurd (if_neg h) hne

/-- The version tuple of numbers joined by `.`. -/
theorem gccVersion_intercalate {parts : List (List Char)} (hne : parts ≠ [])
    (hdig : ∀ p ∈ parts, p ≠ [] ∧ p.all Char.isDigit = true) :
    gccVersion (['.'].intercalate parts) = .ok (parts.map fun p => (digitValue p : Int)) := by
  have hdot : ∀ p ∈ parts, '.' ∉ p := fun p hp h => by
    cases List.all_eq_true.1 (hdig p hp).2 _ h
  rw [gccVersion, List.splitOn_intercalate parts '.' hdot hne]
  clear hne hdot
  induction parts with
  | nil => rfl
  | cons p parts ih =>
    have hp := hdig p (List.mem_cons_self p parts)
    rw [List.mapM_cons, pyInt?_digits hp.1 hp.2, ih fun q hq => hdig q (List.mem_cons_of_mem p hq)]
    rfl

/-- A part that `int` rejects makes the version `ValueError`. -/
theorem gccVersion_valueError {out : List Char} (h : ∃ i ∈ out.splitOn '.', pyInt? i = none) :
    gccVersion out = .error .valueError := by
  rw [gccVersion]
  generalize out.splitOn '.' = is at h ⊢
  induction is with
  | nil => obtain ⟨_, hi, _⟩ := h; nomatch hi
  | cons i is ih =>
    obtain ⟨j, hj, hn⟩ := h
    rw [List.mapM_cons]
    rcases List.mem_cons.1 hj with rfl | hj
    · rw [hn]
      rfl
    · cases pyInt? i with
      | none => rfl
      | some n =>
        rw [ih ⟨j, hj, hn⟩]
        rfl

/-- The settings `check_git_config` asks for. -/
def gitSettings : List (List Char) :=
  ["user.name".toList, "user.email".toList, "color.diff".toList]

/-- `check_git_config()`, given what `git config -l` prints: `script.abort()`
(no message, status 255) at the first setting that is not a substring of
it. -/
def checkGitConfig (cfg : List Char) : Except Unit Unit :=
  gitSettings.forM fun setting => if setting <:+: cfg then .ok () else .error ()

/-- The keys `git config -l` lists: each line up to its first `=`. -/
def gitKeys (cfg : List Char) : List (List Char) :=
  (cfg.splitOn '\n').map (List.takeWhile fun c => c != '=')

theorem forM_eq_ok {α : Type} {f : α → Except Unit Unit} :
    ∀ {l : List α}, l.forM f = .ok () ↔ ∀ x ∈ l, f x = .ok ()
  | [] => iff_of_true rfl nofun
  | x :: l => by
    show (f x >>= fun _ => l.forM f) = .ok () ↔ _
    rw [List.forall_mem_cons, ← forM_eq_ok]
    cases f x <;> simp [bind, Except.bind]

theorem mem_intersperse_of_mem {α : Type} {sep : α} :
    ∀ {xs : List α} {x : α}, x ∈ xs → x ∈ xs.intersperse sep
  | [_], _, h => h
  | a :: b :: xs, x, h => by
    rw [List.intersperse_cons₂]
    rcases List.mem_cons.1 h with rfl | h
    · exact List.mem_cons_self _ _
    · exact List.mem_cons_of_mem _ (List.mem_cons_of_mem _ (mem_intersperse_of_mem h))

theorem infix_of_mem_splitOn {c : Char} {cfg l : List Char} (h : l ∈ cfg.splitOn c) : l <:+: cfg := by
  have h' : l <:+: [c].intercalate (cfg.splitOn c) :=
    List.infix_of_mem_flatten (@mem_intersperse_of_mem _ [c] _ _ h)
  rwa [List.intercalate_splitOn] at h'

/-- **`check_git_config` looks for names, not keys.** It passes exactly when
each of `user.name`, `user.email` and `color.diff` occurs somewhere in the
output of `git config -l`; so it passes whenever the three keys are set,
and also when the names occur only in other keys or in values. -/
theorem checkGitConfig_spec (cfg : List Char) :
    (checkGitConfig cfg = .ok () ↔ ∀ s ∈ gitSettings, s <:+: cfg) ∧
    ((∀ s ∈ gitSettings, s ∈ gitKeys cfg) → checkGitConfig cfg = .ok ()) := by
  have hiff : checkGitConfig cfg = .ok () ↔ ∀ s ∈ gitSettings, s <:+: cfg := by
    rw [checkGitConfig, forM_eq_ok]
    refine forall₂_congr fun s _ => ?_
    split <;> simp [*]
  refine ⟨hiff, fun hkeys => hiff.2 fun s hs => ?_⟩
  obtain ⟨line, hline, rfl⟩ := List.mem_map.1 (hkeys s hs)
  exact (List.takeWhile_prefix _).isInfix.trans (infix_of_mem_splitOn hline)

/-- Aliases that print the name and the address, and the colours of
`diff-highlight`, pass with none of the three keys set. -/
example : (checkGitConfig ("alias.who=config user.name\nalias.mail=config user.email\n" ++
      "color.diff-highlight.oldnormal=red\n").toList).isOk = true ∧
    ∀ s ∈ gitSettings, s ∉ gitKeys ("alias.who=config user.name\nalias.mail=config user.email\n" ++
      "color.diff-highlight.oldnormal=red\n").toList := by
  decide

end Host

end ArmPlat
