import Mathlib.Data.List.Sort
import Mathlib.Data.List.Dedup
/-!
# The configuration summary of `config._choose`

Before asking to proceed, `_choose` shows two boxed tables: the choices
made, and the software components included, one row each, sorted by
priority.

The components are `sorted(list(set(config.swcs)), key=priority)`. The
order in which `set` hands its strings to `list` depends on string hashing,
which Python seeds afresh in each run; the sort is stable, so components of
equal priority keep that order. The rows come out sorted and without
repeats in any case, and the same in every run exactly when no two
components share a priority (`sortSwcs_order`).

Every line of a box has the same length, and each column starts at the
same place on every row (`box_aligned`).
-/

namespace ArmPlat

namespace Config

/-! ## The order of the components -/

/-- `sorted(order, key=lambda swc: dblu(swc+".priority", p))`, where `order`
is `list(set(config.swcs))` and `prio` the priority each component looks up
to. -/
def sortSwcs (prio : List Char → Int) (order : List (List Char)) : List (List Char) :=
  order.insertionSort fun a b => prio a ≤ prio b

section Order

variable {α : Type} {a b : α}

/-- In a list without repeats, two items do not stand in both orders. -/
theorem not_pair_sublist_swap (hab : a ≠ b) :
    ∀ {l : List α}, l.Nodup → List.Sublist [a, b] l → List.Sublist [b, a] l → False
  | [], _, h, _ => by simp at h
  | x :: l, hn, h₁, h₂ => by
    rw [List.nodup_cons] at hn
    cases h₁ with
    | cons _ h₁ =>
      cases h₂ with
      | cons _ h₂ => exact not_pair_sublist_swap hab hn.2 h₁ h₂
      | cons₂ _ _ => exact hn.1 (h₁.subset (by simp))
    | cons₂ _ h₁ =>
      cases h₂ with
      | cons _ h₂ => exact hn.1 (h₂.subset (by simp))
      | cons₂ _ _ => exact hab rfl

end Order

section Sorting

variable {prio : List Char → Int}

theorem sortSwcs_perm (order : List (List Char)) : (sortSwcs prio order).Perm order :=
  List.perm_insertionSort _ _

theorem sortSwcs_sorted (order : List (List Char)) :
    (sortSwcs prio order).Sorted fun a b => prio a ≤ prio b := by
  haveI : IsTotal (List Char) fun a b => prio a ≤ prio b := ⟨fun _ _ => le_total _ _⟩
  haveI : IsTrans (List Char) fun a b => prio a ≤ prio b := ⟨fun _ _ _ => le_trans⟩
  exact List.sorted_insertionSort _ _

/-- Without repeats and with distinct priorities, the sorted list is sorted
strictly. -/
theorem sortSwcs_sorted_lt {order : List (List Char)} (hn : order.Nodup)
    (hinj : ∀ a ∈ order, ∀ b ∈ order, prio a = prio b → a = b) :
    (sortSwcs prio order).Sorted fun a b => prio a < prio b := by
  have hp := @sortSwcs_perm prio order
  refine ((sortSwcs_sorted order).and (hp.nodup_iff.2 hn)).imp_of_mem fun ha hb ⟨hle, hne⟩ => ?_
  exact lt_of_le_of_ne hle fun h => hne (hinj _ (hp.subset ha) _ (hp.subset hb) h)

/-- **The order of the components.** For every order `set` may hand them
over in, the rows are the components without repeats, sorted by priority.
When no two share a priority, every such order gives the same rows; when
two do, two orders give different rows. -/
theorem sortSwcs_order (prio : List Char → Int) (swcs : List (List Char)) :
    (∀ order, order.Perm swcs.dedup →
      (sortSwcs prio order).Perm swcs.dedup ∧
        (sortSwcs prio order).Sorted fun a b => prio a ≤ prio b) ∧
    ((∀ a ∈ swcs, ∀ b ∈ swcs, prio a = prio b → a = b) →
      ∀ o₁ o₂, o₁.Perm swcs.dedup → o₂.Perm swcs.dedup → sortSwcs prio o₁ = sortSwcs prio o₂) ∧
    (∀ a ∈ swcs, ∀ b ∈ swcs, a ≠ b → prio a = prio b →
      ∃ o₁ o₂, o₁.Perm swcs.dedup ∧ o₂.Perm swcs.dedup ∧ sortSwcs prio o₁ ≠ sortSwcs prio o₂) := by
  refine ⟨fun order h => ⟨(sortSwcs_perm order).trans h, sortSwcs_sorted order⟩,
    fun hinj o₁ o₂ h₁ h₂ => ?_, fun a ha b hb hab hprio => ?_⟩
  · have hinj' : ∀ o : List (List Char), o.Perm swcs.dedup →
        ∀ a ∈ o, ∀ b ∈ o, prio a = prio b → a = b := fun o h a ha b hb =>
      hinj a (List.mem_dedup.1 (h.subset ha)) b (List.mem_dedup.1 (h.subset hb))
    haveI : IsAntisymm (List Char) fun a b => prio a < prio b :=
      ⟨fun _ _ h₁ h₂ => absurd (h₁.trans h₂) (lt_irrefl _)⟩
    exact List.eq_of_perm_of_sorted (((sortSwcs_perm o₁).trans h₁).trans
        ((sortSwcs_perm o₂).trans h₂).symm)
      (sortSwcs_sorted_lt (h₁.nodup_iff.2 (List.nodup_dedup _)) (hinj' o₁ h₁))
      (sortSwcs_sorted_lt (h₂.nodup_iff.2 (List.nodup_dedup _)) (hinj' o₂ h₂))
  · obtain ⟨s, t, hst⟩ := List.append_of_mem (List.mem_dedup.2 ha)
    have hb' : b ∈ s ++ t := by
      have := List.mem_dedup.2 hb
      rw [hst, List.mem_append, List.mem_cons] at this
      rcases this with h | rfl | h
      exacts [List.mem_append_left t h, absurd rfl hab, List.mem_append_right s h]
    obtain ⟨s', t', hst'⟩ := List.append_of_mem hb'
    have h₁ : (a :: b :: (s' ++ t')).Perm swcs.dedup := by
      rw [hst]
      refine (List.perm_middle.symm.cons a).trans ?_
      rw [← hst']
      exact List.perm_middle.symm
    refine ⟨_, _, h₁, (List.Perm.swap a b _).trans h₁, fun heq => ?_⟩
    have hs₁ : List.Sublist [a, b] (sortSwcs prio (a :: b :: (s' ++ t'))) :=
      List.pair_sublist_insertionSort hprio.le (by simp)
    have hs₂ : List.Sublist [b, a] (sortSwcs prio (b :: a :: (s' ++ t'))) :=
      List.pair_sublist_insertionSort hprio.ge (by simp)
    exact not_pair_sublist_swap hab
      (((sortSwcs_perm _).trans h₁).nodup_iff.2 (List.nodup_dedup _)) hs₁ (heq ▸ hs₂)

end Sorting

/-! ## The boxes -/

/-- `"{:<{:}}".format(s, w)`: `s` padded with blanks to width `w`. -/
def ljust (s : List Char) (w : Nat) : List Char :=
  s ++ List.replicate (w - s.length) ' '

/-- `max([len(x) for x in xs])`, for the nonempty columns `_choose` gives it. -/
def colWidth (xs : List (List Char)) : Nat :=
  (xs.map List.length).foldr Nat.max 0

/-- `"    +-"+(pad[0]*"-")+"-+-"+(pad[1]*"-")+"-+"`, after its newline. -/
def wall (pad₀ pad₁ : Nat) : List Char :=
  "    +-".toList ++ List.replicate pad₀ '-' ++ "-+-".toList ++ List.replicate pad₁ '-' ++ "-+".toList

/-- `"    | {:<{:}} | {:<{:}} |".format(row[0], pad[0], row[1], pad[1])`,
after its newline. -/
def rowLine (pad₀ pad₁ : Nat) (row : List Char × List Char) : List Char :=
  "    | ".toList ++ ljust row.1 pad₀ ++ " | ".toList ++ ljust row.2 pad₁ ++ " |".toList

/-- The lines of a box: a wall, the rows, and a wall; the message holds each
after a newline. -/
def box (rows : List (List Char × List Char)) : List (List Char) :=
  let pad₀ := colWidth (rows.map Prod.fst)
  let pad₁ := colWidth (rows.map Prod.snd)
  wall pad₀ pad₁ :: rows.map (rowLine pad₀ pad₁) ++ [wall pad₀ pad₁]

/-- The text a box adds to the message. -/
def boxText (rows : List (List Char × List Char)) : List Char :=
  (box rows).flatMap ('\n' :: ·)

/-- `descr = f"{vsn} " if vsn else ""; descr += f"commit {commit}" if commit
else ""`, for the string or `None` each lookup gives. -/
def swcDescr (vsn commit : Option (List Char)) : List Char :=
  (match vsn with
    | some v => if v.isEmpty then [] else v ++ [' ']
    | none => []) ++
  match commit with
  | some c => if c.isEmpty then [] else "commit ".toList ++ c
  | none => []

/-- The message `_choose` asks with: the box of `config.cfg`, then, when
there are components, the box of their rows. -/
def chooseMessage (cfg swcRows : List (List Char × List Char)) : List Char :=
  "Your chosen configuration is shown below:\n".toList ++ boxText cfg ++
    (if swcRows.isEmpty then []
     else "\n\nThe following software components are included:\n".toList ++ boxText swcRows) ++
    "\n\n## Proceed with this configuration?".toList

theorem length_le_colWidth {xs : List (List Char)} {x : List Char} (h : x ∈ xs) :
    x.length ≤ colWidth xs := by
  induction xs with
  | nil => cases h
  | cons y ys ih =>
    simp only [colWidth, List.map_cons, List.foldr_cons] at ih ⊢
    rcases List.mem_cons.1 h with rfl | h
    · exact Nat.le_max_left _ _
    · exact (ih h).trans (Nat.le_max_right _ _)

theorem length_ljust {s : List Char} {w : Nat} (h : s.length ≤ w) : (ljust s w).length = w := by
  simp only [ljust, List.length_append, List.length_replicate]
  omega

theorem length_wall (pad₀ pad₁ : Nat) : (wall pad₀ pad₁).length = pad₀ + pad₁ + 11 := by
  have h₁ : "    +-".toList.length = 6 := rfl
  have h₂ : "-+-".toList.length = 3 := rfl
  have h₃ : "-+".toList.length = 2 := rfl
  simp only [wall, List.length_append, List.length_replicate, h₁, h₂, h₃]
  omega

/-- **The boxes are aligned.** Every line of a box has the same length, and
on every row the first cell starts at column 6 and the second at column
`pad[0] + 9`, each padded to its column's width. -/
theorem box_aligned (rows : List (List Char × List Char)) :
    (∀ l ∈ box rows, l.length = colWidth (rows.map Prod.fst) + colWidth (rows.map Prod.snd) + 11) ∧
    ∀ r ∈ rows, ∃ sp₀ sp₁ : List Char,
      rowLine (colWidth (rows.map Prod.fst)) (colWidth (rows.map Prod.snd)) r =
        "    | ".toList ++ r.1 ++ sp₀ ++ " | ".toList ++ r.2 ++ sp₁ ++ " |".toList ∧
      (r.1 ++ sp₀).length = colWidth (rows.map Prod.fst) ∧
      (r.2 ++ sp₁).length = colWidth (rows.map Prod.snd) ∧
      (∀ c ∈ sp₀, c = ' ') ∧ ∀ c ∈ sp₁, c = ' ' := by
  have hcell : ∀ r ∈ rows, (ljust r.1 (colWidth (rows.map Prod.fst))).length =
      colWidth (rows.map Prod.fst) ∧ (ljust r.2 (colWidth (rows.map Prod.snd))).length =
      colWidth (rows.map Prod.snd) := fun r hr =>
    ⟨length_ljust (length_le_colWidth (List.mem_map_of_mem _ hr)),
      length_ljust (length_le_colWidth (List.mem_map_of_mem _ hr))⟩
  refine ⟨fun l hl => ?_, fun r hr => ⟨_, _, by simp [rowLine, ljust], (hcell r hr).1,
    (hcell r hr).2, fun _ h => List.eq_of_mem_replicate h, fun _ h => List.eq_of_mem_replicate h⟩⟩
  simp only [box, List.mem_cons, List.mem_append, List.mem_map, List.not_mem_nil, or_false] at hl
  rcases hl with (rfl | ⟨r, hr, rfl⟩) | rfl
  · exact length_wall _ _
  · have h₁ : "    | ".toList.length = 6 := rfl
    have h₂ : " | ".toList.length = 3 := rfl
    have h₃ : " |".toList.length = 2 := rfl
    simp only [rowLine, List.length_append, (hcell r hr).1, (hcell r hr).2, h₁, h₂, h₃]
    omega
  · exact length_wall _ _

end Config

end ArmPlat
