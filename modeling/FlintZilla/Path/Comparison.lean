import FlintZilla.Path.Order

/-!
# The keys behind the order of remote paths

`operator<` compares two paths by keys: the prefix, the number of the server type, and every segment
up to its first zero, from left to right. What it does not read is not in the key: the type of an
empty path, and the part of a segment behind a zero. Paths that differ only there are equivalent for
a `std::set` without being equal.

Main results:

* `less_eq`, `equivalent_iff`: `operator<` compares the keys.
* `Plain.eq_of_equivalent`: paths without zeros are equal if they are equivalent.
* `less_isStrictTotalOrder`: on such paths it is a strict total order.
-/

namespace FlintZilla

open List

/-- What `wcscmp` reads of a segment. -/
def wcsKey (s : WString) : List Nat := (s.takeWhile (· != nul)).map Char.toNat

/-- An absent prefix comes first. -/
def prefixKey : Option WString → List Nat
  | none => []
  | some s => 1 :: s.map Char.toNat

namespace CServerPath

def key (p : CServerPath) : Option (List (List Nat)) :=
  p.data.map fun d => prefixKey d.pfx :: [p.type.index] :: d.segments.map wcsKey

/-- A path of which the key tells everything. -/
structure Plain (p : CServerPath) : Prop where
  nonempty : p.data ≠ none
  nulFree : ∀ d, p.data = some d → ∀ s ∈ d.segments, nul ∉ s

end CServerPath

/-- Segment by segment, as `wcscmp` compares them. -/
theorem segmentsLess_eq (xs ys : List WString) :
    segmentsLess xs ys = (compare (xs.map wcsKey) (ys.map wcsKey) == .lt) := by
  induction xs generalizing ys with
  | nil => cases ys <;> rfl
  | cons x xs ih =>
    cases ys with
    | nil => rfl
    | cons y ys =>
      rw [List.map_cons, List.map_cons, List.compare_cons_cons, segmentsLess, ih]
      have hcmp : wcscmp x y = compare (wcsKey x) (wcsKey y) := rfl
      rw [hcmp]
      cases compare (wcsKey x) (wcsKey y) <;> rfl

theorem prefixLess_eq (x y : Option WString) :
    prefixLess x y = (compare (prefixKey x) (prefixKey y) == .lt) := by
  cases x with
  | none => cases y <;> rfl
  | some x =>
    cases y with
    | none => rfl
    | some y => rfl

namespace CServerPath

/-- The order of the paths is the order of their keys. -/
theorem less_eq (p q : CServerPath) : p.less q = (compare p.key q.key == .lt) := by
  obtain ⟨t, pd⟩ := p
  obtain ⟨u, qd⟩ := q
  cases pd with
  | none => cases qd <;> rfl
  | some pd =>
    cases qd with
    | none => rfl
    | some qd =>
      have hswap : compare (prefixKey qd.pfx) (prefixKey pd.pfx) =
          (compare (prefixKey pd.pfx) (prefixKey qd.pfx)).swap := Std.OrientedCmp.eq_swap
      have hsome : ∀ a b : List (List Nat), compare (some a) (some b) = compare a b :=
        fun _ _ => rfl
      simp only [less, key, Option.map_some, prefixLess_eq, segmentsLess_eq, hswap, hsome,
        List.compare_cons_cons]
      cases compare (prefixKey pd.pfx) (prefixKey qd.pfx) with
      | lt => rfl
      | gt => rfl
      | eq =>
        -- the prefixes agree, the types decide
        rcases Nat.lt_trichotomy t.index u.index with h | h | h
        · rw [Nat.compare_eq_lt.mpr h]
          simp [h, Nat.lt_asymm h]
        · simp [h]
        · rw [Nat.compare_eq_gt.mpr h]
          simp [h]

theorem equivalent_iff (p q : CServerPath) : p.equivalent q = true ↔ p.key = q.key := by
  have hswap : compare q.key p.key = (compare p.key q.key).swap := Std.OrientedCmp.eq_swap
  have heq : compare p.key q.key = .eq ↔ p.key = q.key := Std.LawfulEqCmp.compare_eq_iff_eq
  rw [equivalent, less_eq, less_eq, hswap, ← heq]
  cases compare p.key q.key <;> decide

end CServerPath

/-- A segment without a zero is compared as a whole. -/
theorem wcsKey_inj {s t : WString} (hs : nul ∉ s) (ht : nul ∉ t) (h : wcsKey s = wcsKey t) :
    s = t := by
  have hall : ∀ {w : WString}, nul ∉ w → w.takeWhile (· != nul) = w := by
    intro w hw
    rw [takeWhile_eq_self_iff]
    intro c hc
    rw [bne_iff_ne]
    rintro rfl
    exact hw hc
  rw [wcsKey, wcsKey, hall hs, hall ht] at h
  exact map_injective_iff.mpr (fun _ _ => Char.toNat_inj.mp) h

/-- No prefix is something else than an empty one. -/
theorem prefixKey_inj {x y : Option WString} (h : prefixKey x = prefixKey y) : x = y := by
  cases x with
  | none =>
    cases y with
    | none => rfl
    | some y => cases h
  | some x =>
    cases y with
    | none => cases h
    | some y =>
      have htail := (cons.inj h).2
      exact congrArg some (map_injective_iff.mpr (fun _ _ => Char.toNat_inj.mp) htail)

namespace CServerPath

theorem segments_inj {xs ys : List WString} (hx : ∀ s ∈ xs, nul ∉ s) (hy : ∀ s ∈ ys, nul ∉ s)
    (h : xs.map wcsKey = ys.map wcsKey) : xs = ys := by
  induction xs generalizing ys with
  | nil =>
    cases ys with
    | nil => rfl
    | cons y ys => cases h
  | cons x xs ih =>
    cases ys with
    | nil => cases h
    | cons y ys =>
      obtain ⟨hhead, htail⟩ := cons.inj h
      rw [wcsKey_inj (hx x (by simp)) (hy y (by simp)) hhead,
        ih (fun s hs => hx s (mem_cons_of_mem _ hs))
          (fun s hs => hy s (mem_cons_of_mem _ hs)) htail]

/-- Paths that a set takes for the same are equal when they are plain. -/
theorem Plain.eq_of_equivalent {p q : CServerPath} (hp : p.Plain) (hq : q.Plain)
    (h : p.equivalent q) : p = q := by
  obtain ⟨t, pd⟩ := p
  obtain ⟨u, qd⟩ := q
  obtain ⟨pd, rfl⟩ := Option.ne_none_iff_exists'.mp hp.nonempty
  obtain ⟨qd, rfl⟩ := Option.ne_none_iff_exists'.mp hq.nonempty
  rw [equivalent_iff] at h
  obtain ⟨hpfx, hrest⟩ := cons.inj (Option.some.inj h)
  obtain ⟨hindex, hsegs⟩ := cons.inj hrest
  have htype : t = u := Function.LeftInverse.injective ServerType.ofIndex_index (cons.inj hindex).1
  have hsegments := segments_inj (hp.nulFree pd rfl) (hq.nulFree qd rfl) hsegs
  obtain ⟨psegs, ppfx⟩ := pd
  obtain ⟨qsegs, qpfx⟩ := qd
  obtain rfl : psegs = qsegs := hsegments
  obtain rfl : ppfx = qpfx := prefixKey_inj hpfx
  rw [htype]

theorem equals_iff (p q : CServerPath) : p.equals q ↔ p = q := by
  constructor
  · intro h
    unfold equals at h
    split_ifs at h with _ htype
    rw [bne_iff_ne, not_not] at htype
    exact CServerPath.mk.injEq .. ▸ ⟨htype, beq_iff_eq.mp h⟩
  · rintro rfl
    simp [equals]

/-- On plain paths the order is strict and total, and `operator==` is its equivalence. -/
theorem less_isStrictTotalOrder :
    IsStrictTotalOrder { p : CServerPath // p.Plain } (fun p q => p.1.less q.1) ∧
      ∀ p q : { p : CServerPath // p.Plain }, p.1.equivalent q.1 = p.1.equals q.1 := by
  have hlt : ∀ {p q : CServerPath}, p.less q ↔ compare p.key q.key = .lt := by
    intro p q
    rw [less_eq, beq_iff_eq]
  have hequal : ∀ p q : { p : CServerPath // p.Plain }, p.1.equivalent q.1 ↔ p.1 = q.1 := by
    refine fun p q => ⟨p.2.eq_of_equivalent q.2, fun h => ?_⟩
    rw [equivalent_iff, h]
  refine ⟨{ trichotomous := ?_, irrefl := ?_, trans := ?_ }, ?_⟩
  · intro p q hpq hqp
    refine Subtype.ext ((hequal p q).mp ?_)
    simp [equivalent, hpq, hqp]
  · intro p h
    have hself : compare p.1.key p.1.key = .eq := Std.ReflCmp.compare_self
    cases hself.symm.trans (hlt.mp h)
  · intro p q r hpq hqr
    exact hlt.mpr (Std.TransCmp.lt_trans (hlt.mp hpq) (hlt.mp hqr))
  · intro p q
    rw [Bool.eq_iff_iff, hequal, equals_iff]

end CServerPath

end FlintZilla
