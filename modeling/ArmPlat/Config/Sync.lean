import ArmPlat.Python.Str
/-!
# The workspace: `get_ws_files`, `check_empty_ws` and the loop of `config.sync`

`get_ws_files()` lists the top of the workspace (its files, and its
directories with a `/` appended), sorts the list, and leaves out the script,
the downloads directory `.downloads/`, the repo's `.repo/` and `log.txt`.
`check_empty_ws` removes what it lists once the user agrees, and exits with
status 0 when they do not: whatever the host lists, it removes each other
entry once, a directory with `rmdir` and a file with `rm`, and nothing else
(`checkEmptyWs_spec`).

`config.sync` syncs the repo until `build-scripts/platforms` holds a
directory and `build-scripts/filesystems` a file, clearing the workspace
before each retry. It reads both with `for (_, dirs, _) in os.walk(path):
break`, which binds nothing when `path` is missing. So on the first pass
`if dirs and files` may raise `UnboundLocalError` instead of offering the
retry, and on a later pass it reads what an earlier pass listed: the loop
can break on the listing of a directory the retry removed
(`syncLoop_outcomes`).
-/

namespace ArmPlat

namespace Config

open Py

/-! ## What the host lists -/

/-- What `os.walk(path)` yields first for a directory `path`: the names of
the directories and of the files directly in it. Names in one directory are
distinct and hold no `/`. -/
structure Listing where
  dirs : List (List Char)
  files : List (List Char)
  nodup : (files ++ dirs).Nodup
  no_slash : ∀ n ∈ files ++ dirs, '/' ∉ n

/-- `files + [d+"/" for d in dirs]`, the entries `get_ws_files` sorts. -/
def Listing.entries (l : Listing) : List (List Char) :=
  l.files ++ l.dirs.map (· ++ ['/'])

/-- `[sh.filename, sh.dld, sh.repod, "log.txt"]`: the script, the downloads
directory (`sh.mkdir("downloads", hidden=True)+"/"`), the repo and the
log. -/
def wsKept (filename : List Char) : List (List Char) :=
  [filename, ".downloads/".toList, ".repo/".toList, "log.txt".toList]

/-- `get_ws_files()`, with `filename` for `sh.filename` and `l` for what
`os.walk(sh.cwd)` yields first. -/
def getWsFiles (filename : List Char) (l : Listing) : List (List Char) :=
  (wsKept filename).foldl (fun filelist f => if f ∈ filelist then filelist.erase f else filelist)
    (l.entries.insertionSort fun a b => strLe a b = true)

/-- A call that removes a workspace entry. -/
inductive Removal where
  | rmdir (p : List Char)
  | rm (p : List Char)
  deriving DecidableEq, Repr

/-- The path a removal is given. -/
def Removal.path : Removal → List Char
  | .rmdir p | .rm p => p

/-- `sh.rmdir(f) if f.endswith("/") else sh.rm(f)`. -/
def removal (f : List Char) : Removal :=
  if endswith f ['/'] then .rmdir f else .rm f

@[simp] theorem path_removal (f : List Char) : (removal f).path = f := by
  unfold removal
  split <;> rfl

theorem removal_injective : Function.Injective removal := fun f g h => by
  rw [← path_removal f, h, path_removal]

theorem removal_dir (d : List Char) : removal (d ++ ['/']) = .rmdir (d ++ ['/']) := by
  rw [removal, if_pos (endswith_iff.2 (List.suffix_append _ _))]

theorem removal_file {f : List Char} (h : '/' ∉ f) : removal f = .rm f := by
  rw [removal, if_neg fun hs => h ((endswith_iff.1 hs).subset (List.mem_singleton_self _))]

/-- The removals `get_ws_files`'s list calls for in a workspace listed as
`l`: `rmdir` on a directory and `rm` on a file, except the four it leaves
out. -/
def Removes (filename : List Char) (l : Listing) : Removal → Prop
  | .rmdir p => p ∉ wsKept filename ∧ ∃ d ∈ l.dirs, p = d ++ ['/']
  | .rm p => p ∉ wsKept filename ∧ p ∈ l.files

instance (filename : List Char) (l : Listing) : DecidablePred (Removes filename l)
  | .rmdir _ => inferInstanceAs (Decidable (_ ∧ _))
  | .rm _ => inferInstanceAs (Decidable (_ ∧ _))

/-- `check_empty_ws()`, with `yes` the answer to its prompt: the status of
its `sys.exit(0)` when the user declines, and the removals it makes. -/
def checkEmptyWs (filename : List Char) (l : Listing) (yes : Bool) : Option Nat × List Removal :=
  let filelist := getWsFiles filename l
  if filelist.length > 0 then
    if yes then (none, filelist.map removal) else (some 0, [])
  else (none, [])

/-! ## `get_ws_files` -/

namespace Listing

variable (l : Listing)

theorem nodup_entries : l.entries.Nodup := by
  have hfd := List.nodup_append.1 l.nodup
  refine List.nodup_append.2 ⟨hfd.1, hfd.2.1.map fun _ _ h => List.append_cancel_right h, ?_⟩
  intro f hf hd
  obtain ⟨d, -, rfl⟩ := List.mem_map.1 hd
  exact l.no_slash _ (List.mem_append_left _ hf) (List.mem_append_right _ (List.mem_singleton_self _))

end Listing

/-- `for f in kept: if f in filelist: filelist.remove(f)`, over a list with
no repeats: what it leaves, in order, is every entry not in `kept`. -/
theorem foldl_remove_spec : ∀ (kept : List (List Char)) {filelist : List (List Char)},
    filelist.Nodup →
      let r := kept.foldl (fun fl f => if f ∈ fl then fl.erase f else fl) filelist
      r.Nodup ∧ r.Sublist filelist ∧ ∀ x, x ∈ r ↔ x ∈ filelist ∧ x ∉ kept
  | [], _, h => ⟨h, List.Sublist.refl _, by simp⟩
  | k :: kept, filelist, h => by
    have hstep : (if k ∈ filelist then filelist.erase k else filelist) = filelist.erase k := by
      split
      · rfl
      · exact (List.erase_of_not_mem ‹_›).symm
    obtain ⟨hnd, hsub, hmem⟩ := foldl_remove_spec kept (h.erase k)
    rw [List.foldl_cons, hstep]
    refine ⟨hnd, hsub.trans (List.erase_sublist _ _), fun x => ?_⟩
    rw [hmem, h.mem_erase_iff, List.mem_cons, not_or]
    tauto

section GetWsFiles

variable (filename : List Char) (l : Listing)

theorem nodup_getWsFiles : (getWsFiles filename l).Nodup :=
  (foldl_remove_spec _ ((List.perm_insertionSort _ _).nodup_iff.2 l.nodup_entries)).1

/-- The list `check_empty_ws` shows is in code-point order. -/
theorem sorted_getWsFiles : (getWsFiles filename l).Sorted fun a b => strLe a b = true :=
  (List.sorted_insertionSort _ _).sublist
    (foldl_remove_spec _ ((List.perm_insertionSort _ _).nodup_iff.2 l.nodup_entries)).2.1

theorem mem_getWsFiles {f : List Char} :
    f ∈ getWsFiles filename l ↔ f ∈ l.entries ∧ f ∉ wsKept filename := by
  rw [getWsFiles, (foldl_remove_spec _ ((List.perm_insertionSort _ _).nodup_iff.2
    l.nodup_entries)).2.2, (List.perm_insertionSort _ _).mem_iff]

/-- The list, removed entry by entry, calls for the removals `Removes`
names, each once. -/
theorem mem_map_removal_getWsFiles {r : Removal} :
    r ∈ (getWsFiles filename l).map removal ↔ Removes filename l r := by
  simp only [List.mem_map, mem_getWsFiles, Listing.entries, List.mem_append]
  constructor
  · rintro ⟨f, ⟨hf | ⟨d, hd, rfl⟩, hk⟩, rfl⟩
    · rw [removal_file (l.no_slash f (List.mem_append_left _ hf))]
      exact And.intro hk hf
    · rw [removal_dir]
      exact And.intro hk ⟨d, hd, rfl⟩
  · rcases r with p | p
    · rintro ⟨hk, d, hd, rfl⟩
      exact ⟨_, ⟨.inr ⟨d, hd, rfl⟩, hk⟩, removal_dir d⟩
    · rintro ⟨hk, hf⟩
      exact ⟨p, ⟨.inl hf, hk⟩, removal_file (l.no_slash p (List.mem_append_left _ hf))⟩

end GetWsFiles

/-! ## `check_empty_ws` -/

/-- **`check_empty_ws` removes the rest of the workspace, once the user
agrees.** Each removal is of a listed entry other than the script,
`.downloads/`, `.repo/` and `log.txt`; each such entry is removed once,
with `rmdir` when it is a directory and `rm` when it is a file, in
code-point order of the paths; and the script exits, with status 0,
exactly when there is such an entry and the user declines. -/
theorem checkEmptyWs_spec (filename : List Char) (l : Listing) (yes : Bool) :
    (checkEmptyWs filename l yes).2.Nodup ∧
    (∀ r, r ∈ (checkEmptyWs filename l yes).2 ↔ yes = true ∧ Removes filename l r) ∧
    ((checkEmptyWs filename l yes).2.map Removal.path).Sorted (fun a b => strLe a b = true) ∧
    ((checkEmptyWs filename l yes).1 = some 0 ↔
      yes = false ∧ ∃ f ∈ l.entries, f ∉ wsKept filename) := by
  have hremovals : (checkEmptyWs filename l yes).2 =
      if yes then (getWsFiles filename l).map removal else [] := by
    by_cases h : getWsFiles filename l = [] <;> cases yes <;> simp [checkEmptyWs, h, List.length_pos]
  have hexit : (checkEmptyWs filename l yes).1 = some 0 ↔ yes = false ∧ getWsFiles filename l ≠ [] := by
    by_cases h : getWsFiles filename l = [] <;> cases yes <;> simp [checkEmptyWs, h, List.length_pos]
  refine ⟨?_, fun r => ?_, ?_, ?_⟩
  · rw [hremovals]
    split
    · exact (nodup_getWsFiles filename l).map removal_injective
    · exact List.nodup_nil
  · rw [hremovals]
    split
    · rw [mem_map_removal_getWsFiles]
      exact (and_iff_right ‹_›).symm
    · exact iff_of_false (List.not_mem_nil r) fun h => ‹¬_› h.1
  · rw [hremovals]
    split
    · simpa only [List.map_map, Function.comp_def, path_removal, List.map_id'] using
        sorted_getWsFiles filename l
    · exact List.sorted_nil
  · rw [hexit, ← List.length_pos, List.length_pos_iff_exists_mem]
    simp only [mem_getWsFiles, and_assoc]

/-! ## The loop of `config.sync` -/

/-- One pass of the `while True` loop of `config.sync`, as the host answers
it after `sh.reposync`: what `os.walk` yields first for
`build-scripts/platforms` and for `build-scripts/filesystems` (`none` when
the path is missing, where `os.walk` yields nothing), the answer to "try to
sync again?", and what `os.walk(sh.cwd)` yields when `get_ws_files` runs
before the retry. -/
structure Attempt where
  platforms : Option Listing
  filesystems : Option Listing
  again : Bool
  workspace : Listing

/-- How the loop ends. -/
inductive SyncEnd where
  /-- `break`, with the `dirs` and `files` the cleanup after the loop reads. -/
  | synced (dirs files : List (List Char))
  /-- `sys.exit(0)`, when the user declines the retry. -/
  | declined
  /-- `UnboundLocalError`, raised at `if dirs and files`. -/
  | unbound
  /-- The passes given ran out, with the loop still going. -/
  | running
  deriving DecidableEq, Repr

/-- `if dirs and files: break`, with an unbound local as `none`: `none` when
evaluating it raises `UnboundLocalError`, else whether the loop breaks.
Python reads `files` only when `dirs` is a non-empty list. -/
def breaks : Option (List (List Char)) → Option (List (List Char)) → Option Bool
  | none, _ => none
  | some [], _ => some false
  | some (_ :: _), files => files.map fun fs => !fs.isEmpty

/-- One pass of the loop, from the bindings of `dirs` and `files` (`none`
while unbound): how the loop ends there, or the bindings it retries with. -/
def syncPass (a : Attempt) (dirs files : Option (List (List Char))) :
    SyncEnd ⊕ Option (List (List Char)) × Option (List (List Char)) :=
  let dirs := (a.platforms.map Listing.dirs).or dirs
  let files := (a.filesystems.map Listing.files).or files
  match breaks dirs files with
  | none => .inl .unbound
  | some true => .inl (.synced (dirs.getD []) (files.getD []))
  | some false => if a.again then .inr (dirs, files) else .inl .declined

/-- The `while True` loop of `config.sync`, over the passes the host
answers: how it ends, and the removals of its retries. -/
def syncLoop (filename : List Char) (dirs files : Option (List (List Char))) :
    List Attempt → SyncEnd × List Removal
  | [] => (.running, [])
  | a :: rest =>
    match syncPass a dirs files with
    | .inl e => (e, [])
    | .inr (dirs, files) =>
      let r := syncLoop filename dirs files rest
      (r.1, (getWsFiles filename a.workspace).map removal ++ r.2)

/-! ### One pass -/

theorem breaks_eq_some_true {dirs files : Option (List (List Char))} :
    breaks dirs files = some true ↔ ∃ ds fs, dirs = some ds ∧ files = some fs ∧ ds ≠ [] ∧ fs ≠ [] := by
  match dirs, files with
  | none, _ => simp [breaks]
  | some [], _ => simp [breaks]
  | some (_ :: _), none => simp [breaks]
  | some (_ :: _), some fs => cases fs <;> simp [breaks]

section Pass

variable {a : Attempt} {dirs files : Option (List (List Char))}

/-- A pass that breaks reads non-empty bindings, each made by the pass or
held from before it. -/
theorem syncPass_synced {ds fs : List (List Char)} (h : syncPass a dirs files = .inl (.synced ds fs)) :
    ds ≠ [] ∧ fs ≠ [] ∧ (a.platforms.map Listing.dirs = some ds ∨ dirs = some ds) ∧
      (a.filesystems.map Listing.files = some fs ∨ files = some fs) := by
  simp only [syncPass] at h
  split at h
  · nomatch h
  · obtain ⟨ds', fs', hd, hf, hds, hfs⟩ := breaks_eq_some_true.1 ‹_›
    rw [hd, hf, Sum.inl.injEq, SyncEnd.synced.injEq] at h
    obtain ⟨rfl, rfl⟩ := h
    exact ⟨hds, hfs, (Option.or_eq_some.1 hd).imp_right And.right,
      (Option.or_eq_some.1 hf).imp_right And.right⟩
  · split at h <;> nomatch h

/-- A pass that retries keeps each binding it does not make. -/
theorem syncPass_retry {dirs' files' : Option (List (List Char))}
    (h : syncPass a dirs files = .inr (dirs', files')) :
    dirs' = (a.platforms.map Listing.dirs).or dirs ∧ files' = (a.filesystems.map Listing.files).or files := by
  simp only [syncPass] at h
  split at h
  · nomatch h
  · nomatch h
  · split at h
    · rw [Sum.inr.injEq, Prod.mk.injEq] at h
      exact ⟨h.1.symm, h.2.symm⟩
    · nomatch h

end Pass

/-! ### A run -/

section Loop

variable {filename : List Char}

theorem syncLoop_of_inl {a : Attempt} {rest : List Attempt} {dirs files} {e : SyncEnd}
    (h : syncPass a dirs files = .inl e) : syncLoop filename dirs files (a :: rest) = (e, []) := by
  rw [syncLoop, h]

theorem syncLoop_of_inr {a : Attempt} {rest : List Attempt} {dirs files dirs' files'}
    (h : syncPass a dirs files = .inr (dirs', files')) :
    syncLoop filename dirs files (a :: rest) =
      ((syncLoop filename dirs' files' rest).1,
        (getWsFiles filename a.workspace).map removal ++ (syncLoop filename dirs' files' rest).2) := by
  rw [syncLoop, h]

/-- A binding after a pass was made by the pass or held before it. -/
theorem listed_of_or {β : Type} (get : Attempt → Option β) {a : Attempt} {rest : List Attempt}
    {o : Option β} {x : β} (h : (get a).or o = some x ∨ ∃ b ∈ rest, get b = some x) :
    o = some x ∨ ∃ b ∈ a :: rest, get b = some x := by
  rcases h with h | ⟨b, hb, h⟩
  · rcases Option.or_eq_some.1 h with h | ⟨-, h⟩
    · exact .inr ⟨a, List.mem_cons_self _ _, h⟩
    · exact .inl h
  · exact .inr ⟨b, List.mem_cons_of_mem _ hb, h⟩

/-- When the loop breaks, each binding it reads is non-empty, and was made
by some pass or held from before the loop. -/
theorem syncLoop_synced {ds fs : List (List Char)} :
    ∀ {as : List Attempt} {dirs files : Option (List (List Char))},
      (syncLoop filename dirs files as).1 = .synced ds fs →
        ds ≠ [] ∧ fs ≠ [] ∧ (dirs = some ds ∨ ∃ a ∈ as, a.platforms.map Listing.dirs = some ds) ∧
          (files = some fs ∨ ∃ a ∈ as, a.filesystems.map Listing.files = some fs)
  | [], _, _, h => nomatch h
  | a :: rest, dirs, files, h => by
    rcases hp : syncPass a dirs files with e | ⟨dirs', files'⟩
    · rw [syncLoop_of_inl hp] at h
      obtain ⟨hds, hfs, hd, hf⟩ := syncPass_synced (hp.trans (congrArg Sum.inl h))
      exact ⟨hds, hfs, hd.symm.imp_right fun h => ⟨a, List.mem_cons_self _ _, h⟩,
        hf.symm.imp_right fun h => ⟨a, List.mem_cons_self _ _, h⟩⟩
    · simp only [syncLoop_of_inr hp] at h
      obtain ⟨hds, hfs, hd, hf⟩ := syncLoop_synced h
      obtain ⟨rfl, rfl⟩ := syncPass_retry hp
      exact ⟨hds, hfs, listed_of_or (fun b => b.platforms.map Listing.dirs) hd,
        listed_of_or (fun b => b.filesystems.map Listing.files) hf⟩

/-- Every removal of a retry is one `get_ws_files` calls for in the
workspace that pass lists. -/
theorem syncLoop_removes :
    ∀ {as : List Attempt} {dirs files : Option (List (List Char))},
      ∀ r ∈ (syncLoop filename dirs files as).2, ∃ a ∈ as, Removes filename a.workspace r
  | [], _, _, _, h => by simp [syncLoop] at h
  | a :: rest, dirs, files, r, h => by
    rcases hp : syncPass a dirs files with e | ⟨dirs', files'⟩
    · rw [syncLoop_of_inl hp] at h
      simp at h
    · rw [syncLoop_of_inr hp] at h
      rcases List.mem_append.1 h with h | h
      · exact ⟨a, List.mem_cons_self _ _, (mem_map_removal_getWsFiles _ _).1 h⟩
      · obtain ⟨b, hb, hr⟩ := syncLoop_removes r h
        exact ⟨b, List.mem_cons_of_mem _ hb, hr⟩

end Loop

/-- **How the loop of `config.sync` ends.** When it breaks, the `dirs` and
`files` the cleanup after it reads are non-empty, and each was listed by some
pass; not always the last, for a pass that finds a directory missing keeps
the binding of an earlier one. Every removal its retries make is one that
`get_ws_files` calls for in the workspace of that pass. -/
theorem syncLoop_outcomes (filename : List Char) (as : List Attempt) :
    (∀ dirs files, (syncLoop filename none none as).1 = .synced dirs files →
      dirs ≠ [] ∧ files ≠ [] ∧ (∃ a ∈ as, a.platforms.map Listing.dirs = some dirs) ∧
        ∃ a ∈ as, a.filesystems.map Listing.files = some files) ∧
    ∀ r ∈ (syncLoop filename none none as).2, ∃ a ∈ as, Removes filename a.workspace r := by
  refine ⟨fun dirs files h => ?_, fun r => syncLoop_removes r⟩
  obtain ⟨hds, hfs, hd, hf⟩ := syncLoop_synced h
  exact ⟨hds, hfs, hd.resolve_left nofun, hf.resolve_left nofun⟩

/-- A listing of names, as the host gives it. -/
def listing (dirs files : List String) (h : (files.map String.toList ++ dirs.map String.toList).Nodup ∧
    ∀ n ∈ files.map String.toList ++ dirs.map String.toList, '/' ∉ n) : Listing :=
  ⟨dirs.map String.toList, files.map String.toList, h.1, h.2⟩

/-- A sync whose repo leaves `build-scripts/filesystems` empty, and whose
retry syncs no `build-scripts/platforms` at all. -/
def staleRun : List Attempt :=
  [⟨some (listing ["common", "juno"] [] (by decide)), some (listing [] [] (by decide)), true,
      listing ["build-scripts", ".downloads", ".repo"] ["armplat_1901.py", "log.txt"] (by decide)⟩,
    ⟨none, some (listing [] ["busybox"] (by decide)), true, listing [] [] (by decide)⟩]

/-- The retry removes `build-scripts/` and finds no `build-scripts/platforms`;
the loop still breaks, on the platforms the pass before it listed. -/
theorem syncLoop_staleRun :
    syncLoop "armplat_1901.py".toList none none staleRun =
      (.synced ["common".toList, "juno".toList] ["busybox".toList], [.rmdir "build-scripts/".toList]) ∧
    (staleRun.getLast?.bind Attempt.platforms).isNone ∧
    ∃ a ∈ staleRun, a.platforms.map Listing.dirs = some ["common".toList, "juno".toList] :=
  ⟨rfl, rfl, ((syncLoop_outcomes "armplat_1901.py".toList staleRun).1 _ _ rfl).2.2.1⟩

end Config

end ArmPlat
