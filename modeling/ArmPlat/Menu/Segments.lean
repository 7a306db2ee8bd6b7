import ArmPlat.Menu.Tree
import Mathlib.Data.List.Forall2
/-!
# Menus — when keys meet nodes at segment boundaries

Keys are given by their segments: `dotted r [s1, …, sn]` is `r.s1.….sn`.
`choice.tree` filters with `str.startswith`, which agrees with the segment
order exactly when no key's text runs on from a node's meta other than
past a `.` (`MenuKeys.boundary`). Under that condition, with distinct keys
none of which is a segment prefix of another, the tree is the one the
segments describe: its leaf metas are the keys, each once, and every inner
node's meta is a proper segment prefix of a key (`tree_leafMetas`).
-/

namespace ArmPlat

namespace Menu

open Py Database

/-- The key `r.s1.….sn`. -/
def dotted (r : List Char) (segs : List (List Char)) : List Char :=
  r ++ segs.flatMap ('.' :: ·)

/-- Keys below `r` as `choice.tree` expects them, each given by its
segments. -/
structure MenuKeys (r : List Char) (S : List (List (List Char))) : Prop where
  nodup : S.Nodup
  ne_nil : ∀ a ∈ S, a ≠ []
  seg : ∀ a ∈ S, ∀ s ∈ a, s ≠ [] ∧ '.' ∉ s
  prefix_free : ∀ a ∈ S, ∀ b ∈ S, a <+: b → a = b
  /-- A key whose text starts with a node's meta continues it by segments. -/
  boundary : ∀ a ∈ S, ∀ b ∈ S, ∀ p, p <+: b → dotted r p <+: dotted r a → p <+: a

/-- The boundary condition over the finitely many prefixes of each key. -/
theorem MenuKeys.boundary_of_inits {r : List Char} {S : List (List (List Char))}
    (h : ∀ a ∈ S, ∀ b ∈ S, ∀ p ∈ b.inits, dotted r p <+: dotted r a → p <+: a) :
    ∀ a ∈ S, ∀ b ∈ S, ∀ p, p <+: b → dotted r p <+: dotted r a → p <+: a :=
  fun a ha b hb p hp => h a ha b hb p ((List.mem_inits p b).2 hp)

section Dotted

variable {r : List Char}

@[simp] theorem dotted_nil : dotted r [] = r := by
  simp [dotted]

theorem dotted_append (p q : List (List Char)) :
    dotted r (p ++ q) = dotted r p ++ q.flatMap ('.' :: ·) := by
  simp [dotted]

theorem dotted_prefix {p a : List (List Char)} (h : p <+: a) : dotted r p <+: dotted r a := by
  obtain ⟨q, rfl⟩ := h
  rw [dotted_append]
  exact List.prefix_append _ _

theorem length_dotted_lt {p a : List (List Char)} (h : p <+: a) (hne : p ≠ a) :
    (dotted r p).length < (dotted r a).length := by
  obtain ⟨q, rfl⟩ := h
  have hq : q ≠ [] := fun hq => hne (by simp [hq])
  obtain ⟨s, q, rfl⟩ := List.exists_cons_of_ne_nil hq
  simp [dotted_append]

/-- The segment after `p`, read off a key that continues `p`. -/
theorem childKey_dotted {p rest : List (List Char)} {s : List Char} (hs : '.' ∉ s) :
    childKey (dotted r p) (dotted r (p ++ s :: rest)) = s := by
  have hk : dotted r (p ++ s :: rest) = dotted r p ++ '.' :: (s ++ rest.flatMap ('.' :: ·)) := by
    simp [dotted_append]
  have hdrop : slice (dotted r (p ++ s :: rest)) ((dotted r p).length + 1)
      (dotted r (p ++ s :: rest)).length = s ++ rest.flatMap ('.' :: ·) := by
    have h := @slice_of_le (dotted r (p ++ s :: rest)) ((dotted r p).length + 1) _
      (by rw [hk]; simp) le_rfl
    push_cast at h
    rw [h, hk]
    simp
    omega
  rw [childKey, hdrop]
  cases rest with
  | nil => simp [hs]
  | cons t rest =>
    have hm : '.' ∈ s ++ (t :: rest).flatMap ('.' :: ·) := by simp
    rw [if_pos hm, List.flatMap_cons, List.cons_append, find_append_cons hs]
    have h := @slice_of_le (s ++ '.' :: (t ++ rest.flatMap ('.' :: ·))) 0 s.length (Nat.zero_le _)
      (by simp)
    push_cast at h
    rw [h]
    simp

end Dotted

/-! ## Lists of lookups -/

theorem mapM_lookChild_ok (f : List Char → Bool → Value) :
    ∀ l : List (List Char), l.mapM (lookChild fun k b => .ok (f k b)) =
      .ok (l.map fun k => (f (k ++ ".name".toList) false, k, f (k ++ ".descr".toList) true))
  | [] => rfl
  | k :: l => by
    rw [List.mapM_cons, mapM_lookChild_ok f l]
    rfl

theorem forall₂_of_mapM_eq_ok {α β : Type} {g : α → Except Fault β} :
    ∀ {l : List α} {ys : List β}, l.mapM g = .ok ys → List.Forall₂ (fun x y => g x = .ok y) l ys
  | [], ys, h => by
    cases h
    exact .nil
  | x :: l, ys, h => by
    rw [List.mapM_cons] at h
    obtain ⟨b, hb, h⟩ := bind_eq_ok.1 h
    obtain ⟨bs, hbs, h⟩ := bind_eq_ok.1 h
    cases h
    exact .cons hb (forall₂_of_mapM_eq_ok hbs)

/-! ## The keys below a node -/

/-- The keys (as segments) that continue `p`. -/
def below (S : List (List (List Char))) (p : List (List Char)) : List (List (List Char)) :=
  S.filter fun a => decide (p <+: a)

/-- The segment after `p` in a key that continues it. -/
def nextSeg (p a : List (List Char)) : List Char :=
  (a.drop p.length).headD []

/-- A meta of an inner node the segments describe: a proper segment prefix of
a key. -/
def Inner (r : List Char) (S : List (List (List Char))) (m : List Char) : Prop :=
  ∃ q, m = dotted r q ∧ q ∉ S ∧ ∃ b ∈ S, q <+: b

section Below

variable {S : List (List (List Char))}

@[simp] theorem mem_below {p a : List (List Char)} : a ∈ below S p ↔ a ∈ S ∧ p <+: a := by
  simp [below]

theorem below_nil : below S [] = S :=
  List.filter_eq_self.2 fun a _ => by simp

theorem nextSeg_append (p rest : List (List Char)) (s : List Char) :
    nextSeg p (p ++ s :: rest) = s := by
  simp [nextSeg]

/-- A key that continues `p` and is not `p` has a segment after it. -/
theorem eq_append_cons_of_prefix {p a : List (List Char)} (h : p <+: a) (hne : p ≠ a) :
    ∃ s rest, a = p ++ s :: rest := by
  obtain ⟨q, rfl⟩ := h
  obtain ⟨s, rest, rfl⟩ := List.exists_cons_of_ne_nil fun hq : q = [] => hne (by simp [hq])
  exact ⟨s, rest, rfl⟩

theorem below_snoc {p : List (List Char)} (hp : p ∉ S) (s : List Char) :
    below S (p ++ [s]) = (below S p).filter fun a => decide (nextSeg p a = s) := by
  rw [below, below, List.filter_filter]
  refine List.filter_congr fun a ha => ?_
  by_cases hpa : p <+: a
  · obtain ⟨t, rest, rfl⟩ := eq_append_cons_of_prefix hpa fun h => hp (h ▸ ha)
    simp [nextSeg_append, eq_comm]
  · have : ¬ p ++ [s] <+: a := fun h => hpa ((List.prefix_append p [s]).trans h)
    simp [hpa, this]

end Below

/-- **A list is the concatenation of its classes.** Grouping `l` by `g`
along a duplicate-free list of all the values of `g` permutes it. -/
theorem perm_flatMap_filter {α β : Type} [DecidableEq β] {g : α → β} :
    ∀ {keys : List β} {l : List α}, keys.Nodup → (∀ x ∈ l, g x ∈ keys) →
      l.Perm (keys.flatMap fun b => l.filter fun x => decide (g x = b))
  | [], l, _, hg => by
    cases l with
    | nil => exact List.Perm.refl _
    | cons x l => exact absurd (hg x (List.mem_cons_self x l)) (List.not_mem_nil _)
  | b :: keys, l, hk, hg => by
    have hb := (List.nodup_cons.1 hk).1
    have ih := @perm_flatMap_filter α β _ g keys (l.filter fun x => !decide (g x = b))
      (List.nodup_cons.1 hk).2 fun x hx => by
        obtain ⟨hx, hgx⟩ := List.mem_filter.1 hx
        exact (List.mem_cons.1 (hg x hx)).resolve_left (by simpa using hgx)
    have hcongr : (keys.flatMap fun b' => (l.filter fun x => !decide (g x = b)).filter
        fun x => decide (g x = b')) = keys.flatMap fun b' => l.filter fun x => decide (g x = b') :=
      List.flatMap_congr fun b' hb' => by
        rw [List.filter_filter]
        refine List.filter_congr fun x _ => ?_
        by_cases hx : g x = b'
        · simp [hx, show b' ≠ b from fun h => hb (h ▸ hb')]
        · simp [hx]
    rw [List.flatMap_cons, ← hcongr]
    exact (List.filter_append_perm _ l).symm.trans (List.Perm.append_left _ ih)

theorem perm_below {S : List (List (List Char))} {p : List (List Char)} (hp : p ∉ S) :
    (below S p).Perm ((sortedSet ((below S p).map (nextSeg p))).flatMap fun s => below S (p ++ [s])) := by
  rw [List.flatMap_congr fun s _ => below_snoc hp s]
  exact perm_flatMap_filter (nodup_sortedSet _) fun a ha => mem_sortedSet.2 (List.mem_map_of_mem _ ha)

section Keys

variable {r : List Char} {S : List (List (List Char))} (hS : MenuKeys r S)
include hS

/-- Under the boundary condition the string filter is the segment filter. -/
theorem filter_startswith {T : List (List (List Char))} (hT : ∀ a ∈ T, a ∈ S)
    {q b : List (List Char)} (hb : b ∈ S) (hqb : q <+: b) :
    (T.map (dotted r)).filter (fun k => startswith k (dotted r q)) =
      (T.filter fun a => decide (q <+: a)).map (dotted r) := by
  rw [List.filter_map]
  congr 1
  refine List.filter_congr fun a ha => ?_
  rw [Function.comp_apply, Bool.eq_iff_iff, startswith_iff, decide_eq_true_iff]
  exact ⟨hS.boundary a (hT a ha) b hb q hqb, dotted_prefix⟩

theorem below_of_mem {p : List (List Char)} (hp : p ∈ S) : below S p = [p] := by
  have hall : ∀ a ∈ below S p, a = p := fun a ha =>
    (hS.prefix_free p hp a (mem_below.1 ha).1 (mem_below.1 ha).2).symm
  have hmem : p ∈ below S p := mem_below.2 ⟨hp, List.prefix_refl p⟩
  have hrep : below S p = List.replicate (below S p).length p := List.eq_replicate_iff.2 ⟨rfl, hall⟩
  have hnd : (below S p).Nodup := hS.nodup.filter _
  have h1 : (below S p).length ≤ 1 := List.nodup_replicate.1 (hrep ▸ hnd)
  have h2 : 0 < (below S p).length := List.length_pos_of_mem hmem
  rw [hrep, show (below S p).length = 1 by omega]
  rfl

/-- `choice.tree` stops at a node exactly when its meta is a key. -/
theorem map_below_eq_iff {p : List (List Char)} :
    (below S p).map (dotted r) = [dotted r p] ↔ p ∈ S := by
  refine ⟨fun h => ?_, fun hp => by rw [below_of_mem hS hp]; rfl⟩
  by_contra hp
  obtain ⟨a, l, ha, hda, -⟩ := List.map_eq_cons_iff.1 h
  have hmem := mem_below.1 (ha ▸ List.mem_cons_self a l)
  exact absurd (congrArg List.length hda)
    (Nat.ne_of_gt (length_dotted_lt hmem.2 fun h => hp (h ▸ hmem.1)))

theorem childKey_below {p a : List (List Char)} (hp : p ∉ S) (ha : a ∈ below S p) :
    childKey (dotted r p) (dotted r a) = nextSeg p a := by
  obtain ⟨haS, hpa⟩ := mem_below.1 ha
  obtain ⟨s, rest, rfl⟩ := eq_append_cons_of_prefix hpa fun h => hp (h ▸ haS)
  rw [childKey_dotted (hS.seg _ haS s (by simp)).2, nextSeg_append]

/-- The children `choice.tree` gives a node that is not a key: one per
segment after it. -/
theorem childMetas_below {p : List (List Char)} (hp : p ∉ S) :
    childMetas (dotted r p) ((below S p).map (dotted r)) =
      (sortedSet ((below S p).map (nextSeg p))).map fun s => dotted r (p ++ [s]) := by
  have h : (below S p).map (childKey (dotted r p) ∘ dotted r) = (below S p).map (nextSeg p) :=
    List.map_congr_left fun a ha => childKey_below hS hp ha
  rw [childMetas, List.map_map, h]
  simp [dotted_append]

end Keys

/-! ## The tree of the segments -/

/-- A node fits the segment prefix `p`: its leaves are the keys below `p`,
and its inner nodes are proper segment prefixes of keys. -/
def Fits (r : List Char) (S : List (List (List Char))) (p : List (List Char)) (c : Choice) : Prop :=
  c.leafMetas.Perm ((below S p).map (dotted r)) ∧ ∀ m ∈ c.innerMetas, Inner r S m

section Tree

variable {r : List Char} {S : List (List (List Char))}

theorem fits_children {qs : List (List (List Char))} {cs : List Choice}
    (h : List.Forall₂ (Fits r S) qs cs) :
    (Choice.leafMetasOf cs).Perm (qs.flatMap fun q => (below S q).map (dotted r)) ∧
      ∀ m ∈ Choice.innerMetasOf cs, Inner r S m := by
  induction h with
  | nil => exact ⟨.refl _, fun m hm => by simp [Choice.innerMetasOf] at hm⟩
  | cons hqc _ ih =>
    rw [Choice.leafMetasOf, Choice.innerMetasOf, List.flatMap_cons]
    exact ⟨hqc.1.append ih.1, fun m hm => (List.mem_append.1 hm).elim (hqc.2 m) (ih.2 m)⟩

variable (hS : MenuKeys r S)
include hS

/-- **Each node of `choice.tree` fits its segment prefix**, given the keys
it keeps, for any successful name and descr lookups. -/
theorem crawl_fits (f : List Char → Bool → Value) :
    ∀ (n : Nat) (p : List (List Char)) (kl : List (List Char)) (res : Option (List Choice)),
      (∃ b ∈ S, p <+: b) → kl.filter (fun k => startswith k (dotted r p)) = (below S p).map (dotted r) →
      crawl (fun k b => .ok (f k b)) n kl (dotted r p) = .ok res →
      ∀ name descr, Fits r S p (.mk name (dotted r p) descr false (res.getD []))
  | 0, _, _, _, _, _, h, _, _ => by cases h
  | n + 1, p, kl, res, ⟨b, hb, hpb⟩, hkl, h, name, descr => by
    rw [crawl_succ, hkl] at h
    by_cases hp : p ∈ S
    · rw [if_pos ((map_below_eq_iff hS).2 hp)] at h
      cases h
      rw [Fits, below_of_mem hS hp]
      exact ⟨by simp [Choice.leafMetas], fun m hm => by simp [Choice.innerMetas] at hm⟩
    · rw [if_neg (mt (map_below_eq_iff hS).1 hp), childMetas_below hS hp, mapM_lookChild_ok,
        ok_bind] at h
      obtain ⟨cs, hcs, rfl⟩ := map_eq_ok.1 h
      set segs := sortedSet ((below S p).map (nextSeg p))
      have hseg : ∀ s ∈ segs, ∃ b ∈ S, p ++ [s] <+: b := fun s hs => by
        obtain ⟨a, ha, rfl⟩ := List.mem_map.1 (mem_sortedSet.1 hs)
        obtain ⟨haS, hpa⟩ := mem_below.1 ha
        obtain ⟨t, rest, rfl⟩ := eq_append_cons_of_prefix hpa fun h => hp (h ▸ haS)
        exact ⟨_, haS, by simp [nextSeg_append]⟩
      have h2 := forall₂_of_mapM_eq_ok hcs
      simp only [List.forall₂_map_left_iff] at h2
      have hfit : List.Forall₂ (Fits r S) (segs.map fun s => p ++ [s]) cs := by
        rw [List.forall₂_map_left_iff]
        refine (((List.forall₂_and_left _ _).2 ⟨fun s hs => hs, h2⟩).imp fun s c ⟨hs, hc⟩ => ?_)
        obtain ⟨res', hres', rfl⟩ := map_eq_ok.1 hc
        obtain ⟨b', hb', hpb'⟩ := hseg s hs
        refine crawl_fits f n (p ++ [s]) _ res' ⟨b', hb', hpb'⟩ ?_ hres' _ _
        rw [filter_startswith hS (fun a ha => (mem_below.1 ha).1) hb' hpb']
        congr 1
        rw [below, below, List.filter_filter]
        refine List.filter_congr fun a _ => ?_
        by_cases hsa : p ++ [s] <+: a
        · simp [hsa, (List.prefix_append p [s]).trans hsa]
        · simp [hsa]
      obtain ⟨hleaf, hinner⟩ := fits_children hfit
      have hne : segs ≠ [] :=
        List.ne_nil_of_mem (mem_sortedSet.2 (List.mem_map_of_mem _ (mem_below.2 ⟨hb, hpb⟩)))
      obtain ⟨c, cs', rfl⟩ : ∃ c cs', cs = c :: cs' := List.exists_cons_of_ne_nil fun h => hne
        (List.eq_nil_of_length_eq_zero (by simpa [h] using hfit.length_eq))
      have hperm : ((segs.map fun s => p ++ [s]).flatMap fun q => (below S q).map (dotted r)) =
          (segs.flatMap fun s => below S (p ++ [s])).map (dotted r) := by
        rw [List.flatMap_map, List.map_flatMap]
      refine ⟨?_, fun m hm => ?_⟩
      · rw [Option.getD_some, Choice.leafMetas]
        exact hleaf.trans (hperm ▸ ((perm_below hp).map (dotted r)).symm)
      · rw [Option.getD_some, Choice.innerMetas] at hm
        rcases List.mem_cons.1 hm with rfl | hm
        · exact ⟨p, rfl, hp, b, hb, hpb⟩
        · exact hinner m hm

/-- **`choice.tree` builds the tree of the segments** when no key runs on
from a node's meta except past a `.`: for any name and descr lookups that
succeed, and fuel past the longest key, its leaf metas are the keys, each
once, and each inner node's meta is a proper segment prefix of a key. -/
theorem tree_leafMetas (f : List Char → Bool → Value) (hne : S ≠ []) (n : Nat)
    (hn : ∀ a ∈ S, (dotted r a).length < r.length + n) :
    ∃ T, tree (fun k b => .ok (f k b)) (n + 1) (S.map (dotted r)) r = .ok (some T) ∧
      T.leafMetas.Perm (S.map (dotted r)) ∧ ∀ m ∈ T.innerMetas, Inner r S m := by
  obtain ⟨b, hb⟩ := List.exists_mem_of_ne_nil S hne
  have hlen : ∀ k ∈ S.map (dotted r), k.length < r.length + n := fun k hk => by
    obtain ⟨a, ha, rfl⟩ := List.mem_map.1 hk
    exact hn a ha
  obtain ⟨res, hres⟩ : ∃ res, crawl (fun k b => .ok (f k b)) (n + 1) (S.map (dotted r)) r = .ok res := by
    cases hc : crawl (fun k b => .ok (f k b)) (n + 1) (S.map (dotted r)) r with
    | error e => exact absurd hc (crawl_ne_error (fun _ _ h => by cases h) n _ _ hlen)
    | ok res => exact ⟨res, rfl⟩
  have hfits := fun name descr => crawl_fits hS f (n + 1) [] (S.map (dotted r)) res
    ⟨b, hb, List.nil_prefix⟩ (filter_startswith hS (fun a ha => ha) hb List.nil_prefix)
    (by rw [dotted_nil]; exact hres) name descr
  simp only [dotted_nil, Fits, below_nil] at hfits
  cases res with
  | none =>
    obtain ⟨a, l, hSa, hra, -⟩ := List.map_eq_cons_iff.1
      (List.perm_singleton.1 (hfits .none .none).1.symm)
    have := @length_dotted_lt r [] a List.nil_prefix (hS.ne_nil a (hSa ▸ List.mem_cons_self a l)).symm
    rw [dotted_nil, hra] at this
    exact absurd this (lt_irrefl _)
  | some cs =>
    exact ⟨_, by rw [tree, hres]; rfl, hfits (.node (.str "<root>".toList)) .none⟩

end Tree

/-- The keys `k.a` and `k.b`. -/
theorem tree_kab :
    ∃ T, tree (fun _ _ => .ok .none) (4 + 1) ([[['a']], [['b']]].map (dotted "k".toList))
        "k".toList = .ok (some T) ∧
      T.leafMetas.Perm ([[['a']], [['b']]].map (dotted "k".toList)) ∧
      ∀ m ∈ T.innerMetas, Inner "k".toList [[['a']], [['b']]] m :=
  @tree_leafMetas "k".toList [[['a']], [['b']]]
    ⟨by decide, by decide, by decide, by decide, MenuKeys.boundary_of_inits (by decide)⟩
    (fun _ _ => .none) (by decide) 4 (by decide)

end Menu

end ArmPlat
