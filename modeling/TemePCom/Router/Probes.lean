/-
TemePCom/Router/Probes.lean

The indices `get_best_route` probes.

The loop is looked at without its result: `Bounds` are its two unsigned variables,
and `Inside` says of a run from them that every probed index is in the table, every
new bound is the number it is computed as, and the loop comes to its end.

The right bound is decremented before it is compared with the left one, so it can
pass below zero: at once when the table is empty, and whenever the search keeps to the
left until it has probed index 0.  Then the bound is `0xffffffff` and the next probe
`0x7fffffff`.  Nothing else goes wrong (`inside_iff`), so the loop stays inside iff some
probe on the left spine of the bisection points right (`staysInside_iff`).
-/
import TemePCom.Router.LongestPrefix

namespace TemePCom.Router

open Bisection

variable {rtable : List RtableEntry} {destIp : UInt32}

/-! ### The loop without its result -/

/-- `left` and `right`. -/
structure Bounds where
  left : UInt32
  right : UInt32

def Bounds.mid (b : Bounds) : UInt32 := b.left + (b.right - b.left) / 2

/-- The bounds after the entry at the midpoint has been compared. -/
def Bounds.probe (destIp : UInt32) (e : RtableEntry) (b : Bounds) : Bounds :=
  if destIp &&& e.mask = e.pref then { b with right := b.mid - 1 }
  else if destIp &&& e.mask > e.pref then { b with right := b.mid - 1 }
  else { b with left := b.mid + 1 }

/-- The new bound is the number next to the midpoint: nothing has wrapped around. -/
def Bounds.Exact (destIp : UInt32) (e : RtableEntry) (b : Bounds) : Prop :=
  if destIp &&& e.mask < e.pref then (b.probe destIp e).left.toNat = b.mid.toNat + 1
  else (b.probe destIp e).right.toNat + 1 = b.mid.toNat

/-- The loop from these bounds ends, probes only entries of the table, and computes
its bounds without wrapping around. -/
inductive Inside (rtable : List RtableEntry) (destIp : UInt32) : Bounds → Prop
  | done {b : Bounds} : ¬ b.left ≤ b.right → Inside rtable destIp b
  | probe {b : Bounds} {e : RtableEntry} : b.left ≤ b.right →
      rtable[b.mid.toNat]? = some e → b.Exact destIp e →
      Inside rtable destIp (b.probe destIp e) → Inside rtable destIp b

/-- `left = 0, right = rtable_len - 1`. -/
def Bounds.start (rtable : List RtableEntry) : Bounds := ⟨0, UInt32.ofNat rtable.length - 1⟩

/-- `get_best_route` stays inside its table, from its first bound on. -/
def StaysInside (rtable : List RtableEntry) (destIp : UInt32) : Prop :=
  (Bounds.start rtable).right.toNat + 1 = rtable.length ∧
    Inside rtable destIp (Bounds.start rtable)

/-- One round of `get_best_route`, in terms of its bounds. -/
theorem getBestRouteLoop_probe {b : Bounds} {e : RtableEntry} (hle : b.left ≤ b.right)
    (he : rtable[b.mid.toNat]? = some e) (fuel : ℕ) (best : Option RtableEntry) :
    getBestRouteLoop rtable destIp (fuel + 1) b.left b.right best =
      getBestRouteLoop rtable destIp fuel (b.probe destIp e).left (b.probe destIp e).right
        (if destIp &&& e.mask = e.pref then some e else best) := by
  rw [getBestRouteLoop, if_pos hle]
  unfold Bounds.mid at he
  simp only [he, Bounds.probe, Bounds.mid]
  split_ifs <;> rfl

/-- A search that stays inside returns, given enough rounds. -/
theorem Inside.returns {b : Bounds} (h : Inside rtable destIp b) : ∃ rounds, ∀ fuel,
    rounds ≤ fuel → ∀ best, ∃ res,
      getBestRouteLoop rtable destIp fuel b.left b.right best = .ok res := by
  induction h with
  | done hgt =>
    refine ⟨1, fun fuel hfuel best => ⟨best, ?_⟩⟩
    obtain ⟨fuel, rfl⟩ := Nat.exists_eq_add_of_le' hfuel
    rw [getBestRouteLoop, if_neg hgt]
  | probe hle he _ _ ih =>
    obtain ⟨rounds, hrounds⟩ := ih
    refine ⟨rounds + 1, fun fuel hfuel best => ?_⟩
    obtain ⟨fuel, rfl⟩ := Nat.exists_eq_add_of_le' (Nat.le_of_add_left_le hfuel)
    obtain ⟨res, hres⟩ := hrounds fuel (by omega) _
    exact ⟨res, (getBestRouteLoop_probe hle he fuel best).trans hres⟩

/-! ### When it stays inside -/

/-- The test of an index, for the entry that is there. -/
theorem verdict_eq_lt_iff {i : ℕ} {e : RtableEntry} (he : rtable[i]? = some e) :
    verdict rtable destIp i = .lt ↔ destIp &&& e.mask < e.pref := by
  unfold verdict
  simp only [he]
  split_ifs with hhit hgt
  · rw [hhit]
    simp
  · exact iff_of_false (by simp) (UInt32.not_lt.mpr (UInt32.le_of_lt hgt))
  · refine iff_of_true rfl ?_
    exact UInt32.lt_of_le_of_ne (UInt32.not_lt.mp hgt) hhit

/-- A probe that points right moves the left bound. -/
theorem Bounds.probe_right {b : Bounds} {e : RtableEntry} (h : destIp &&& e.mask < e.pref) :
    b.probe destIp e = { b with left := b.mid + 1 } := by
  unfold Bounds.probe
  rw [if_neg (UInt32.ne_of_lt h), if_neg (UInt32.not_lt.mpr (UInt32.le_of_lt h))]

/-- A probe that does not moves the right bound. -/
theorem Bounds.probe_left {b : Bounds} {e : RtableEntry} (h : ¬ destIp &&& e.mask < e.pref) :
    b.probe destIp e = { b with right := b.mid - 1 } := by
  unfold Bounds.probe
  split_ifs with hhit hgt
  · rfl
  · rfl
  · exact absurd (UInt32.lt_of_le_of_ne (UInt32.not_lt.mp hgt) hhit) h

/-- A search stays inside iff its next probe does, and the search from there. -/
theorem inside_iff_probe {b : Bounds} {e : RtableEntry} (hle : b.left ≤ b.right)
    (he : rtable[b.mid.toNat]? = some e) : Inside rtable destIp b ↔
      b.Exact destIp e ∧ Inside rtable destIp (b.probe destIp e) := by
  constructor
  · rintro (hgt | ⟨-, he', hexact, hrest⟩)
    · exact absurd hle hgt
    · obtain rfl := Option.some.inj (he.symm.trans he')
      exact ⟨hexact, hrest⟩
  · rintro ⟨hexact, hrest⟩
    exact .probe hle he hexact hrest

/-- **What goes wrong, and nothing else**: the search from `[lo, hi)` stays inside unless
it starts at the left end and runs off it. -/
theorem inside_iff (hlen : rtable.length < 4294967296) {lo hi : ℕ} {b : Bounds}
    (hleft : b.left.toNat = lo) (hright : b.right.toNat + 1 = hi) (hlo : lo ≤ hi)
    (hhi : hi ≤ rtable.length) :
    Inside rtable destIp b ↔ ¬ (lo = 0 ∧ RunsOff rtable destIp hi) := by
  -- every probe leaves its midpoint out of the interval
  induction hn : hi - lo using Nat.strong_induction_on generalizing lo hi b with
  | _ n ih =>
    by_cases hlt : lo < hi
    swap
    · have hgt : ¬ b.left ≤ b.right := by
        rw [UInt32.le_iff_toNat_le]
        omega
      exact iff_of_true (.done hgt) (by omega)
    have hle : b.left ≤ b.right := by
      rw [UInt32.le_iff_toNat_le]
      omega
    have hmlt := mid_lt hlt
    have hmle := le_mid lo hi
    have hmid : b.mid.toNat = mid lo hi := toNat_mid hleft hright hlt
    obtain ⟨e, he⟩ : ∃ e, rtable[mid lo hi]? = some e :=
      ⟨_, List.getElem?_eq_getElem (by omega)⟩
    rw [inside_iff_probe hle (by rw [hmid]; exact he)]
    unfold Bounds.Exact
    by_cases hv : destIp &&& e.mask < e.pref
    · -- to the right, away from the left end
      have hright' : RunsOff rtable destIp hi → lo ≠ 0 := fun hoff h0 => by
        subst h0
        exact ((runsOff_iff hlt).mp hoff).1 ((verdict_eq_lt_iff he).mpr hv)
      have hsucc : (b.mid + 1).toNat = mid lo hi + 1 := toNat_succ hmid (by omega)
      have hrest : Inside rtable destIp { b with left := b.mid + 1 } ↔
          ¬ (mid lo hi + 1 = 0 ∧ RunsOff rtable destIp hi) :=
        ih (hi - (mid lo hi + 1)) (by omega) hsucc hright (by omega) hhi rfl
      rw [if_pos hv, Bounds.probe_right hv]
      exact iff_of_true ⟨by rw [hsucc, hmid], hrest.mpr (by omega)⟩ fun h => hright' h.2 h.1
    · -- to the left; from index 0 the bound wraps around
      have hoff : lo = 0 ∧ RunsOff rtable destIp hi ↔
          lo = 0 ∧ RunsOff rtable destIp (mid lo hi) := by
        refine and_congr_right fun h0 => ?_
        subst h0
        rw [runsOff_iff hlt]
        exact and_iff_right fun h => hv ((verdict_eq_lt_iff he).mp h)
      rw [if_neg hv, Bounds.probe_left hv, hoff]
      by_cases hzero : mid lo hi = 0
      · refine iff_of_false (fun h => ?_) (not_not.mpr ⟨by omega, ?_⟩)
        · have hpred : (b.mid - 1).toNat + 1 = b.mid.toNat := h.1
          omega
        · rw [hzero]
          exact runsOff_zero
      · have hpred : (b.mid - 1).toNat + 1 = mid lo hi := toNat_pred hmid hzero
        have hrest : Inside rtable destIp { b with right := b.mid - 1 } ↔
            ¬ (lo = 0 ∧ RunsOff rtable destIp (mid lo hi)) :=
          ih (mid lo hi - lo) (by omega) hleft hpred hmle (by omega) rfl
        rw [hrest]
        exact and_iff_right (by rw [hmid]; exact hpred)

/-- **When `get_best_route` stays inside its table**: iff some probe on the left spine
of the bisection points right.  The spine of an empty table is empty. -/
theorem staysInside_iff (rtable : List RtableEntry) (destIp : UInt32)
    (hlen : rtable.length < 4294967296) : StaysInside rtable destIp ↔
      ∃ i ∈ spine rtable.length, verdict rtable destIp i = .lt := by
  rw [exists_lt_iff_not_runsOff]
  by_cases hnil : rtable.length = 0
  · -- the first bound has wrapped around
    refine iff_of_false (fun h => ?_) (not_not.mpr ?_)
    · have hstart := h.1
      omega
    · rw [hnil]
      exact runsOff_zero
  · have hnat : (UInt32.ofNat rtable.length).toNat = rtable.length := by
      rw [UInt32.toNat_ofNat']
      exact Nat.mod_eq_of_lt (by omega)
    have hright : (Bounds.start rtable).right.toNat + 1 = rtable.length := toNat_pred hnat hnil
    have hinside : Inside rtable destIp (Bounds.start rtable) ↔
        ¬ (0 = 0 ∧ RunsOff rtable destIp rtable.length) :=
      inside_iff hlen rfl hright (Nat.zero_le _) le_rfl
    unfold StaysInside
    rw [hinside]
    constructor
    · exact fun h hoff => h.2 ⟨rfl, hoff⟩
    · exact fun h => ⟨hright, fun hoff => h hoff.2⟩

/-- `192.168.1.0/24`, `10.0.0.0/8` and a default route; the destination is beyond both
prefixes. -/
theorem staysInside_iff_mixedTable : StaysInside mixedTable.entries 0x0100000b ↔
    ∃ i ∈ spine mixedTable.entries.length,
      verdict mixedTable.entries 0x0100000b i = .lt :=
  staysInside_iff mixedTable.entries 0x0100000b (by decide)

/-- A default route alone: the probe of index 0 hits, and the right bound wraps around. -/
theorem not_staysInside_defaultRoute :
    [(⟨0, 2, 0, 1⟩ : RtableEntry)].Pairwise Descending ∧
      ¬ StaysInside [⟨0, 2, 0, 1⟩] 0x0100000b := by
  refine ⟨List.pairwise_singleton _ _, fun h => ?_⟩
  have hinside := (inside_iff (b := Bounds.start [⟨0, 2, 0, 1⟩]) (by decide) rfl
    (show _ = 1 by decide) (Nat.zero_le _) le_rfl).mp h.2
  exact hinside ⟨rfl, (runsOff_iff one_pos).mpr ⟨by decide, runsOff_zero⟩⟩

end TemePCom.Router
