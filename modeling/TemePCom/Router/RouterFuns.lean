/-
TemePCom/Router/RouterFuns.lean

The routing table (router_funs.c): the comparator handed to `qsort`, the
binary search for a route, and the Ethernet header setter.

`get_best_route` keeps its interval in `unsigned int`s and decides per probe on
the *probed entry's own* mask.  The two ways it can leave the table, the initial
bound of an empty table and the step to the left of index 0, both wrap around
to `0xffffffff`; a read at an index outside the table is `outOfBounds` here.
-/
import TemePCom.Router.Skel

namespace TemePCom.Router

/-- Ways in which a run of the C code has no defined continuation. -/
inductive Fault
  | outOfBounds
  | nullDeref
  | unfinished
  deriving DecidableEq

/-- `struct route_table_entry`.  Prefix, next hop and mask hold the bytes
`read_rtable` stores in network order, as the host loads them. -/
structure RtableEntry where
  pref : UInt32
  nextHop : UInt32
  mask : UInt32
  interface : ℕ
  deriving DecidableEq

/-- `lpm_comparator`: an unsigned difference, returned as an `int`. -/
def lpmComparator (e1 e2 : RtableEntry) : ℤ :=
  if e1.pref = e2.pref then (e2.mask - e1.mask).toBitVec.toInt
  else (e2.pref - e1.pref).toBitVec.toInt

/-- The loop of `get_best_route`.  Every probe leaves its midpoint out of the
interval, so `length + 2` rounds are enough for any table `read_rtable` can
count in its `int`. -/
def getBestRouteLoop (rtable : List RtableEntry) (destIp : UInt32) :
    ℕ → UInt32 → UInt32 → Option RtableEntry → Except Fault (Option RtableEntry)
  | 0, _, _, _ => .error .unfinished
  | fuel + 1, left, right, best =>
    if left ≤ right then
      let mid := left + (right - left) / 2
      match rtable[mid.toNat]? with
      | none => .error .outOfBounds
      | some e =>
        -- `mid - 1` wraps around at index 0
        if destIp &&& e.mask = e.pref then
          getBestRouteLoop rtable destIp fuel left (mid - 1) (some e)
        else if destIp &&& e.mask > e.pref then
          getBestRouteLoop rtable destIp fuel left (mid - 1) best
        else
          getBestRouteLoop rtable destIp fuel (mid + 1) right best
    else .ok best

/-- `get_best_route`; `none` is its `NULL`. -/
def getBestRoute (rtable : List RtableEntry) (destIp : UInt32) :
    Except Fault (Option RtableEntry) :=
  getBestRouteLoop rtable destIp (rtable.length + 2) 0 (UInt32.ofNat rtable.length - 1) none

theorem mem_of_getBestRouteLoop {rtable : List RtableEntry} {destIp : UInt32} {fuel : ℕ}
    {left right : UInt32} {best : Option RtableEntry} {route : RtableEntry}
    (h : getBestRouteLoop rtable destIp fuel left right best = .ok (some route))
    (hbest : ∀ e ∈ best, e ∈ rtable) : route ∈ rtable := by
  induction fuel generalizing left right best with
  | zero => cases h
  | succ fuel ih =>
    rw [getBestRouteLoop] at h
    split_ifs at h with hle
    · rcases he : rtable[(left + (right - left) / 2).toNat]? with - | e
      · simp only [he, reduceCtorEq] at h
      · -- only a hit changes the best entry
        simp only [he] at h
        split_ifs at h
        · refine ih h fun e' he' => ?_
          obtain rfl := Option.some.inj he'
          exact List.mem_of_getElem? he
        · exact ih h hbest
        · exact ih h hbest
    · exact hbest route (Except.ok.inj h)

/-- A route that is found is an entry of the table. -/
theorem mem_of_getBestRoute {rtable : List RtableEntry} {destIp : UInt32}
    {route : RtableEntry} (h : getBestRoute rtable destIp = .ok (some route)) :
    route ∈ rtable :=
  mem_of_getBestRouteLoop h fun _ he => nomatch he

/-- `eth_hdr_setter`. -/
def ethHdrSetter (destMac sourceMac : Mac) (type : UInt16) : EtherHeader where
  etherDhost := destMac
  etherShost := sourceMac
  etherType := ntohs type

end TemePCom.Router
