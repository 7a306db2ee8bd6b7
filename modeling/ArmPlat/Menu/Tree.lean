import ArmPlat.Database.Fuel
/-!
# Menus — `choice.tree`

`choice.tree(keylist, root)` builds the menu of dotted keys below `root`.
At a node with meta `m` it keeps the keys that start with `m`, stops
(`return None`) when they are exactly `[m]`, and otherwise gives the node one
child `m.s` for each distinct first segment `s` after `m`, in sorted order,
looks up each child's `name` and `descr`, and builds each child in turn from
the keys it kept.

The recursion ends: a node's meta is longer than its parent's, and a node
whose meta is longer than every key keeps no key and has no children
(`crawl_ne_error`). The filter is `str.startswith`, not a segment
boundary, so a key `a.bc` is kept at the node `a.b`, gives it the child
`a.b.` with the empty segment, and the tree of `a.b.c` and `a.bc` has the
leaf `a.b..`, which is no key (`tree_stringPrefix`).
-/

namespace ArmPlat

namespace Menu

open Py Database

/-- A `choice`: `choice.tree` leaves `disabled` unset, and
`config._choose_p` sets it. -/
inductive Choice where
  | mk (name : Value) (meta : List Char) (descr : Value) (disabled : Bool) (children : List Choice)

namespace Choice

def name : Choice → Value
  | mk n _ _ _ _ => n

def meta : Choice → List Char
  | mk _ m _ _ _ => m

def disabled : Choice → Bool
  | mk _ _ _ x _ => x

def children : Choice → List Choice
  | mk _ _ _ _ cs => cs

mutual

/-- The metas of the nodes without children, left to right. -/
def leafMetas : Choice → List (List Char)
  | mk _ m _ _ [] => [m]
  | mk _ _ _ _ (c :: cs) => leafMetasOf (c :: cs)

def leafMetasOf : List Choice → List (List Char)
  | [] => []
  | c :: cs => leafMetas c ++ leafMetasOf cs

end

mutual

/-- The metas of the nodes with children, parents first. -/
def innerMetas : Choice → List (List Char)
  | mk _ _ _ _ [] => []
  | mk _ m _ _ (c :: cs) => m :: innerMetasOf (c :: cs)

def innerMetasOf : List Choice → List (List Char)
  | [] => []
  | c :: cs => innerMetas c ++ innerMetasOf cs

end

end Choice

/-- `key = k[len(root.meta)+1:]`, cut before its first `.` if it has one. -/
def childKey (meta k : List Char) : List Char :=
  let key := slice k (meta.length + 1) k.length
  if '.' ∈ key then slice key 0 (find key '.') else key

/-- `[f"{root.meta}.{k}" for k in sorted(list(set(keys)))]`. -/
def childMetas (meta : List Char) (keylist : List (List Char)) : List (List Char) :=
  (sortedSet (keylist.map (childKey meta))).map fun k => meta ++ '.' :: k

/-- `choice(dblu(k+".name", plat), meta=k, descr=dblu(k+".descr", plat,
noneAllowed=True))`, without its children; `look k noneAllowed` is
`dblu(k, plat, noneAllowed)`. -/
def lookChild (look : List Char → Bool → Except Fault Value) (k : List Char) :
    Except Fault (Value × List Char × Value) :=
  look (k ++ ".name".toList) false >>= fun name =>
    look (k ++ ".descr".toList) true >>= fun descr => .ok (name, k, descr)

/-- `choice.tree(keylist, root, plat, False)` for a node whose meta is `meta`,
over at most `fuel` levels: `none` where it returns `None`, and otherwise the
children it gives the node. A child keeps the children its own call gave it,
none when that call returned `None`. -/
def crawl (look : List Char → Bool → Except Fault Value) :
    Nat → List (List Char) → List Char → Except Fault (Option (List Choice))
  | 0, _, _ => .error .outOfFuel
  | n + 1, keylist, meta =>
    let keylist := keylist.filter fun k => startswith k meta
    if keylist = [meta] then .ok none
    else
      (childMetas meta keylist).mapM (lookChild look) >>= fun kids =>
        some <$> kids.mapM fun (name, k, descr) =>
          (fun r => Choice.mk name k descr false (r.getD [])) <$> crawl look n keylist k

/-- `choice.tree(keylist, root, plat)`, whose root is `choice("<root>",
meta=root)`. -/
def tree (look : List Char → Bool → Except Fault Value) (fuel : Nat) (keylist : List (List Char))
    (root : List Char) : Except Fault (Option Choice) :=
  Option.map (Choice.mk (.node (.str "<root>".toList)) root .none false) <$> crawl look fuel keylist root

/-! ## One level -/

section Level

variable {look : List Char → Bool → Except Fault Value}

/-- **The equation of a level**: filter, stop at `[meta]`, look the children
up, build each. -/
theorem crawl_succ (n : Nat) (keylist : List (List Char)) (meta : List Char) :
    crawl look (n + 1) keylist meta =
      if keylist.filter (fun k => startswith k meta) = [meta] then .ok none
      else
        (childMetas meta (keylist.filter fun k => startswith k meta)).mapM (lookChild look) >>=
          fun kids => some <$> kids.mapM fun (name, k, descr) =>
            (fun r => Choice.mk name k descr false (r.getD [])) <$>
              crawl look n (keylist.filter fun k => startswith k meta) k :=
  rfl

theorem childMetas_nil (meta : List Char) : childMetas meta [] = [] := rfl

theorem mem_childMetas {meta c : List Char} {keylist : List (List Char)}
    (h : c ∈ childMetas meta keylist) : ∃ s, c = meta ++ '.' :: s := by
  obtain ⟨s, -, rfl⟩ := List.mem_map.1 h
  exact ⟨s, rfl⟩

theorem lookChild_meta {k : List Char} {y : Value × List Char × Value}
    (h : lookChild look k = .ok y) : y.2.1 = k := by
  obtain ⟨name, -, h⟩ := bind_eq_ok.1 h
  obtain ⟨descr, -, h⟩ := bind_eq_ok.1 h
  cases h
  rfl

theorem mem_of_mapM_eq_ok {α β : Type} {f : α → Except Fault β} :
    ∀ {l : List α} {ys : List β}, l.mapM f = .ok ys → ∀ y ∈ ys, ∃ x ∈ l, f x = .ok y
  | [], ys, h, y, hy => by
    cases h
    cases hy
  | x :: l, ys, h, y, hy => by
    simp only [List.mapM_cons] at h
    obtain ⟨b, hb, h⟩ := bind_eq_ok.1 h
    obtain ⟨bs, hbs, h⟩ := bind_eq_ok.1 h
    cases h
    rcases List.mem_cons.1 hy with rfl | hy
    · exact ⟨x, List.mem_cons_self x l, hb⟩
    · obtain ⟨x', hx', h⟩ := mem_of_mapM_eq_ok hbs y hy
      exact ⟨x', List.mem_cons_of_mem x hx', h⟩

theorem bind_ne_error {α β : Type} {x : Except Fault α} {f : α → Except Fault β} {e : Fault}
    (hx : x ≠ .error e) (hf : ∀ a, x = .ok a → f a ≠ .error e) : x >>= f ≠ .error e := by
  cases x with
  | error e' => exact fun h => hx (by cases h; rfl)
  | ok a => exact hf a rfl

theorem map_ne_error {α β : Type} {x : Except Fault α} {f : α → β} {e : Fault}
    (hx : x ≠ .error e) : f <$> x ≠ .error e := by
  cases x with
  | error e' => exact fun h => hx (by cases h; rfl)
  | ok a => exact fun h => by cases h

theorem mapM_ne_error {α β : Type} {f : α → Except Fault β} {e : Fault} :
    ∀ {l : List α}, (∀ x ∈ l, f x ≠ .error e) → l.mapM f ≠ .error e
  | [], _ => fun h => by cases h
  | x :: l, h => by
    simp only [List.mapM_cons]
    exact bind_ne_error (h x (List.mem_cons_self x l)) fun _ _ =>
      bind_ne_error (mapM_ne_error fun z hz => h z (List.mem_cons_of_mem x hz)) fun _ _ h =>
        by cases h

theorem lookChild_ne_error {e : Fault} (hlook : ∀ k b, look k b ≠ .error e) (k : List Char) :
    lookChild look k ≠ .error e :=
  bind_ne_error (hlook _ _) fun _ _ => bind_ne_error (hlook _ _) fun _ _ h => by cases h

end Level

/-! ## Fuel -/

section Fuel

variable {look : List Char → Bool → Except Fault Value}

/-- More fuel never changes what the crawl answers. -/
theorem crawl_fuel_mono : ∀ {n m : Nat}, n ≤ m → ∀ keylist meta,
    FuelLe (crawl look n keylist meta) (crawl look m keylist meta)
  | 0, _, _, _, _ => .inl rfl
  | n + 1, m + 1, h, keylist, meta => by
    rw [crawl_succ, crawl_succ]
    split
    · exact .refl _
    · exact (FuelLe.refl _).bind fun kids => FuelLe.map <| FuelLe.mapM kids fun _ _ =>
        FuelLe.map (crawl_fuel_mono (Nat.le_of_succ_le_succ h) _ _)

/-- **`choice.tree` ends, and fails only as its lookups do.** A node whose
meta falls short of every key it is given by fewer than `n` characters is
built within `n + 1` levels without the error `e`, when no name or descr
lookup gives `e`: for `e` running out, the recursion ends. -/
theorem crawl_ne_error {e : Fault} (hlook : ∀ k b, look k b ≠ .error e) :
    ∀ (n : Nat) (keylist : List (List Char)) (meta : List Char),
      (∀ k ∈ keylist, k.length < meta.length + n) →
      crawl look (n + 1) keylist meta ≠ .error e := by
  intro n
  induction n with
  | zero =>
    intro keylist meta hlen
    have hnil : keylist.filter (fun k => startswith k meta) = [] :=
      List.filter_eq_nil_iff.2 fun k hk hs => by
        have := (startswith_iff.1 hs).length_le
        have := hlen k hk
        omega
    rw [crawl_succ, hnil, if_neg (List.cons_ne_nil _ _).symm, childMetas_nil]
    exact fun h => by cases h
  | succ n ih =>
    intro keylist meta hlen
    rw [crawl_succ]
    split
    · exact fun h => by cases h
    · refine bind_ne_error (mapM_ne_error fun k _ => lookChild_ne_error hlook k) fun kids hkids =>
        map_ne_error (mapM_ne_error fun ⟨name, k, descr⟩ hkid => map_ne_error (ih _ _ ?_))
      obtain ⟨c, hc, hck⟩ := mem_of_mapM_eq_ok hkids _ hkid
      obtain ⟨s, rfl⟩ := mem_childMetas (lookChild_meta hck ▸ hc)
      intro k' hk'
      have := hlen k' (List.mem_filter.1 hk').1
      simp only [List.length_append, List.length_cons]
      omega

/-- With lookups that always answer, the tree of `a.b.c` and `a.bc` below
`a` is built within six levels. -/
theorem crawl_abc_ends :
    crawl (fun _ _ => .ok .none) 6 ["a.b.c".toList, "a.bc".toList] "a".toList ≠ .error .outOfFuel :=
  crawl_ne_error (fun _ _ h => by cases h) 5 _ _ (by decide)

end Fuel

/-! ## The relational model of `tree_prompt` -/

/-- The nodes `tree_prompt(title, root)` can return, for some answers: it
descends while the node has children, into the only child, whose name it
adds to a `str`, or into a child `prompt` accepts, which is not disabled,
from a menu whose names it formats as `str`s. -/
inductive Prompted : Choice → Choice → Prop
  | leaf (name : Value) (meta : List Char) (descr : Value) (disabled : Bool) :
      Prompted (.mk name meta descr disabled []) (.mk name meta descr disabled [])
  | only (name : Value) (meta : List Char) (descr : Value) (disabled : Bool) {c r : Choice} :
      c.name.isStr = true → Prompted c r → Prompted (.mk name meta descr disabled [c]) r
  | pick (name : Value) (meta : List Char) (descr : Value) (disabled : Bool) {cs : List Choice}
      {c r : Choice} :
      2 ≤ cs.length → (∀ d ∈ cs, d.name.isStr = true) → c ∈ cs → c.disabled = false → Prompted c r →
      Prompted (.mk name meta descr disabled cs) r

/-- Every name below the node is a `str`. -/
inductive Named : Choice → Prop
  | mk {name : Value} {meta : List Char} {descr : Value} {disabled : Bool} {children : List Choice} :
      (∀ c ∈ children, c.name.isStr = true) → (∀ c ∈ children, Named c) →
      Named (.mk name meta descr disabled children)

theorem Choice.mem_leafMetasOf {c : Choice} {x : List Char} :
    ∀ {cs : List Choice}, c ∈ cs → x ∈ c.leafMetas → x ∈ Choice.leafMetasOf cs
  | _ :: cs, .head _, hx => by
    rw [Choice.leafMetasOf]
    exact List.mem_append_left _ hx
  | _ :: cs, .tail _ hc, hx => by
    rw [Choice.leafMetasOf]
    exact List.mem_append_right _ (mem_leafMetasOf hc hx)

/-- Every node `Prompted` allows has no children, and its meta is a leaf
meta of the tree. -/
theorem Prompted.leaf_meta {t r : Choice} (h : Prompted t r) :
    r.children = [] ∧ r.meta ∈ t.leafMetas := by
  induction h with
  | leaf name meta descr disabled => exact ⟨rfl, List.mem_singleton_self _⟩
  | only name meta descr disabled _ _ ih =>
    refine ⟨ih.1, ?_⟩
    rw [Choice.leafMetas, Choice.leafMetasOf, Choice.leafMetasOf, List.append_nil]
    exact ih.2
  | pick name meta descr disabled hlen _ hc _ _ ih =>
    obtain ⟨c', cs', rfl⟩ := List.exists_cons_of_ne_nil (List.ne_nil_of_mem hc)
    exact ⟨ih.1, by rw [Choice.leafMetas]; exact Choice.mem_leafMetasOf hc ih.2⟩

/-! ## Keys that extend a meta past a segment boundary -/

/-- The tree of `a.b.c` and `a.bc` below `a`, with any names and
descriptions: `a.bc` is kept at `a.b`, which gets the child `a.b.`, whose
child `a.b..` is a leaf. -/
theorem tree_stringPrefix (f : List Char → Bool → Value) (n : Nat) :
    (fun t => (t.map Choice.leafMetas, t.map Choice.innerMetas)) <$>
        tree (fun k b => .ok (f k b)) (n + 4) ["a.b.c".toList, "a.bc".toList] "a".toList =
      .ok (some ["a.b..".toList, "a.b.c".toList, "a.bc".toList],
        some ["a".toList, "a.b".toList, "a.b.".toList]) := by
  have h := (@crawl_fuel_mono (fun k b => .ok (f k b)) 4 (n + 4) (Nat.le_add_left 4 n)
    ["a.b.c".toList, "a.bc".toList] "a".toList).eq_of_ne fun h => by cases h
  rw [tree, h]
  rfl

end Menu

end ArmPlat
