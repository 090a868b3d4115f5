import Mathlib.Data.List.Basic
import Mathlib.Data.List.Nodup
import Mathlib.Data.List.Perm.Basic
import Mathlib.Data.List.Rotate
import MsgBroker.Lib.Circle

/-!
# Arrays of cells

An array is the list of its cells, of which a program uses the first few.
-/

set_option autoImplicit false

namespace MsgBroker.Lib

variable {α β : Type}

/-! ## Single accesses -/

/-- Stores a value in a cell. -/
def store (cells : List α) (i : ℕ) (a : α) : Option (List α) :=
  if i < cells.length then some (cells.set i a) else none

/-- Moves `n` cells from `src` to `dst`, as if through a copy. -/
def moveCells (cells : List α) (dst src n : ℕ) : Option (List α) :=
  if src + n ≤ cells.length ∧ dst + n ≤ cells.length then
    some (cells.take dst ++ (cells.drop src).take n ++ cells.drop (dst + n))
  else none

variable {cells : List α} {i n : ℕ}

theorem take_store (hi : i < cells.length) (a : α) :
    (cells.set i a).take (i + 1) = cells.take i ++ [a] := by
  rw [List.take_succ_eq_append_getElem (by simpa using hi), List.take_set_of_le (Nat.le_refl i),
    List.getElem_set_self]

/-! ## Inserting and removing a cell -/

/-- Opens a gap at `i` in an array used up to `count`, unless `i` is its end, and stores a value
there. -/
def insertCell (cells : List α) (count i : ℕ) (a : α) : Option (List α) :=
  (if i < count then moveCells cells (i + 1) i (count - i) else some cells).bind
    fun moved => store moved i a

/-- Closes the gap at `i` in an array used up to `count`, unless `i` is its last cell. -/
def removeCell (cells : List α) (count i : ℕ) : Option (List α) :=
  if i + 1 < count then moveCells cells i (i + 1) (count - i - 1) else some cells

theorem insertCell_spec {count : ℕ} (hi : i ≤ count)
    (hcount : count < cells.length) (a : α) :
    ∃ cells', insertCell cells count i a = some cells' ∧ cells'.length = cells.length ∧
      cells'.take (count + 1) = (cells.take count).take i ++ a :: (cells.take count).drop i := by
  have hfront : (cells.take count).take i = cells.take i := by
    rw [List.take_take, Nat.min_eq_left hi]
  rw [hfront, List.drop_take]
  unfold insertCell
  by_cases hlt : i < count
  · rw [if_pos hlt, moveCells, if_pos ⟨by omega, by omega⟩, Option.bind_some, store]
    have hlen : (cells.take (i + 1) ++ (cells.drop i).take (count - i) ++
        cells.drop (i + 1 + (count - i))).length = cells.length := by
      simp only [List.length_append, List.length_take, List.length_drop]
      omega
    rw [if_pos (by omega)]
    refine ⟨_, rfl, by rw [List.length_set, hlen], ?_⟩
    have hset : (cells.take (i + 1) ++ (cells.drop i).take (count - i) ++
        cells.drop (i + 1 + (count - i))).set i a =
        (cells.take i ++ a :: (cells.drop i).take (count - i)) ++
          cells.drop (i + 1 + (count - i)) := by
      rw [List.take_succ_eq_append_getElem (by omega : i < cells.length)]
      simp only [List.append_assoc, List.cons_append]
      rw [List.set_append_right _ _ (by simp)]
      simp [Nat.min_eq_left (by omega : i ≤ cells.length)]
    rw [hset, List.take_append_of_le_length, List.take_of_length_le]
    · simp only [List.length_append, List.length_cons, List.length_take, List.length_drop]
      omega
    · simp only [List.length_append, List.length_cons, List.length_take, List.length_drop]
      omega
  · obtain rfl : i = count := by omega
    rw [if_neg hlt, Option.bind_some, store, if_pos hcount]
    exact ⟨_, rfl, List.length_set, by rw [take_store hcount, Nat.sub_self, List.take_zero]⟩

theorem removeCell_spec {count : ℕ} (hi : i < count)
    (hcount : count ≤ cells.length) :
    ∃ cells', removeCell cells count i = some cells' ∧ cells'.length = cells.length ∧
      cells'.take (count - 1) = (cells.take count).eraseIdx i := by
  unfold removeCell
  rw [List.eraseIdx_eq_take_drop_succ, List.take_take, Nat.min_eq_left (Nat.le_of_lt hi),
    List.drop_take]
  by_cases hlt : i + 1 < count
  · rw [if_pos hlt, moveCells, if_pos ⟨by omega, by omega⟩]
    refine ⟨_, rfl, ?_, ?_⟩
    · simp only [List.length_append, List.length_take, List.length_drop]
      omega
    · rw [List.take_append_of_le_length, List.take_of_length_le, Nat.sub_sub]
      · simp only [List.length_append, List.length_take, List.length_drop]
        omega
      · simp only [List.length_append, List.length_take, List.length_drop]
        omega
  · obtain rfl : count = i + 1 := by omega
    rw [if_neg hlt]
    exact ⟨_, rfl, rfl, by simp⟩

/-! ## Linear scan -/

/-- The index of the first of the next `n` cells from `i` on that does not satisfy `p`, and the
index behind them when all do. -/
def scanFrom (p : α → Bool) (cells : List α) : ℕ → ℕ → Option ℕ
  | 0, i => some i
  | n + 1, i =>
    match cells[i]? with
    | none => none
    | some a => if p a then scanFrom p cells n (i + 1) else some i

theorem scanFrom_eq (p : α → Bool) (cells : List α) (h : i + n ≤ cells.length) :
    scanFrom p cells n i = some (i + (((cells.drop i).take n).takeWhile p).length) := by
  induction n generalizing i with
  | zero => simp [scanFrom]
  | succ n ih =>
    have hi : i < cells.length := by omega
    rw [scanFrom, List.getElem?_eq_getElem hi, List.drop_eq_getElem_cons hi,
      List.take_succ_cons, List.takeWhile_cons]
    dsimp only
    cases hp : p cells[i] with
    | true =>
      rw [if_pos rfl, if_pos rfl, ih (by omega), List.length_cons]
      congr 1
      omega
    | false => rfl

theorem split_takeWhile (p : α → Bool) (l : List α) :
    l.take (l.takeWhile p).length = l.takeWhile p ∧
      l.drop (l.takeWhile p).length = l.dropWhile p := by
  induction l with
  | nil => exact ⟨rfl, rfl⟩
  | cons a l ih =>
    rw [List.takeWhile_cons, List.dropWhile_cons]
    cases p a with
    | true => exact ⟨congrArg (a :: ·) ih.1, ih.2⟩
    | false => exact ⟨rfl, rfl⟩

theorem length_takeWhile_lt {p : α → Bool} {l : List α} :
    (l.takeWhile p).length < l.length ↔ ∃ a ∈ l, p a = false := by
  induction l with
  | nil => simp
  | cons a l ih =>
    rw [List.takeWhile_cons]
    cases hp : p a with
    | true => simpa [hp] using ih
    | false => simp [hp]

theorem scanFrom_zero (p : α → Bool) (cells : List α) (h : n ≤ cells.length) :
    scanFrom p cells n 0 = some ((cells.take n).takeWhile p).length := by
  rw [scanFrom_eq p cells (by omega), List.drop_zero, Nat.zero_add]

/-! ## Binary search -/

/-- `lowerBound` over the cells of an array. -/
def searchCells (below : α → Bool) (cells : List α) : ℕ → ℕ → ℕ → Option ℕ
  | 0, lo, _ => some lo
  | fuel + 1, lo, hi =>
    if lo < hi then
      let mid := lo + (hi - lo) / 2
      match cells[mid]? with
      | none => none
      | some a =>
        if below a then searchCells below cells fuel (mid + 1) hi
        else searchCells below cells fuel lo mid
    else some lo

theorem searchCells_eq (below : α → Bool) (cells : List α) (fuel lo : ℕ) {hi : ℕ} (hn : hi ≤ n)
    (hlen : n ≤ cells.length) :
    searchCells below cells fuel lo hi =
      some (lowerBound (fun i => ((cells.take n)[i]?).any below) fuel lo hi) := by
  induction fuel generalizing lo hi with
  | zero => rfl
  | succ fuel ih =>
    unfold searchCells lowerBound
    by_cases hlt : lo < hi
    · have hmid : lo + (hi - lo) / 2 < n := by omega
      rw [if_pos hlt, if_pos hlt]
      dsimp only
      rw [List.getElem?_take_of_lt hmid, List.getElem?_eq_getElem (by omega : _ < cells.length)]
      simp only [Option.any_some]
      split
      · exact ih _ hn
      · exact ih _ (by omega)
    · rw [if_neg hlt, if_neg hlt]

/-! ## Compaction -/

/-- The loop that goes over `n` cells from `j` on and moves those to keep down to `write`. -/
def compactFrom (keep : α → Bool) : ℕ → ℕ → ℕ → List α → Option (ℕ × List α)
  | 0, _, write, cells => some (write, cells)
  | n + 1, j, write, cells =>
    match cells[j]? with
    | none => none
    | some a =>
      if !keep a then compactFrom keep n (j + 1) write cells
      else if write = j then compactFrom keep n (j + 1) (write + 1) cells
      else (store cells write a).bind (compactFrom keep n (j + 1) (write + 1))

/-- What a compaction leaves: in front of the write index, what was there and what is kept. -/
structure Compacted (kept : List α) (write : ℕ) (cells : List α) (r : ℕ × List α) : Prop where
  count : r.1 = write + kept.length
  length : r.2.length = cells.length
  front : r.2.take r.1 = cells.take write ++ kept

theorem compactFrom_spec (keep : α → Bool) {j write : ℕ}
    (hwrite : write ≤ j) (hlen : j + n ≤ cells.length) :
    ∃ r, compactFrom keep n j write cells = some r ∧
      Compacted (((cells.drop j).take n).filter keep) write cells r := by
  induction n generalizing j write cells with
  | zero => exact ⟨_, rfl, ⟨by simp, rfl, by simp⟩⟩
  | succ n ih =>
    have hj : j < cells.length := by omega
    rw [compactFrom, List.getElem?_eq_getElem hj, List.drop_eq_getElem_cons hj,
      List.take_succ_cons, List.filter_cons]
    dsimp only
    cases hkeep : keep cells[j] with
    | false =>
      obtain ⟨r, hr, hspec⟩ := ih (Nat.le_succ_of_le hwrite) (by omega : j + 1 + n ≤ cells.length)
      exact ⟨r, hr, hspec⟩
    | true =>
      simp only [Bool.not_true, Bool.false_eq_true, if_false, if_true]
      by_cases heq : write = j
      · subst heq
        obtain ⟨r, hr, hspec⟩ := ih (Nat.le_refl _) (by omega : write + 1 + n ≤ cells.length)
        refine ⟨r, by rw [if_pos rfl]; exact hr, ⟨?_, hspec.length, ?_⟩⟩
        · rw [hspec.count, List.length_cons]
          omega
        · rw [hspec.front, List.take_succ_eq_append_getElem hj, List.append_assoc]
          rfl
      · have hlt : write < cells.length := by omega
        have hset : j + 1 + n ≤ (cells.set write cells[j]).length := by
          rw [List.length_set]
          omega
        have hwrite' : write + 1 ≤ j + 1 := Nat.succ_le_succ hwrite
        obtain ⟨r, hr, hspec⟩ := ih hwrite' hset
        rw [List.drop_set_of_lt (by omega)] at hspec
        refine ⟨r, by rw [if_neg heq, store, if_pos hlt]; exact hr, ⟨?_, ?_, ?_⟩⟩
        · rw [hspec.count, List.length_cons]
          omega
        · rw [hspec.length, List.length_set]
        · rw [hspec.front, take_store hlt, List.append_assoc]
          rfl

theorem compactFrom_zero (keep : α → Bool) (hlen : n ≤ cells.length) :
    ∃ cells', compactFrom keep n 0 0 cells = some (((cells.take n).filter keep).length, cells') ∧
      cells'.length = cells.length ∧
      cells'.take ((cells.take n).filter keep).length = (cells.take n).filter keep := by
  obtain ⟨⟨w, cells'⟩, hr, hspec⟩ := compactFrom_spec keep (Nat.le_refl 0)
    (by omega : 0 + n ≤ cells.length)
  have hcount : w = ((cells.take n).filter keep).length := by simpa using hspec.count
  have hfront : cells'.take w = (cells.take n).filter keep := by simpa using hspec.front
  exact ⟨cells', hcount ▸ hr, hspec.length, hcount ▸ hfront⟩

/-! ## A walk round the array -/

section Walk

variable [DecidableEq β]

/-- The walk over the next `n` cells of an array used up to `count`, from `idx` on and round: the
values `f` that are not yet in `out` are appended to it, until there are `max`. -/
def walkFrom (f : α → β) (cells : List α) (count max : ℕ) : ℕ → ℕ → List β → Option (List β)
  | 0, _, out => some out
  | n + 1, idx, out =>
    match cells[idx]? with
    | none => none
    | some a =>
      let next := if idx + 1 = count then 0 else idx + 1
      if f a ∈ out then walkFrom f cells count max n next out
      else if max ≤ out.length + 1 then some (out ++ [f a])
      else walkFrom f cells count max n next (out ++ [f a])

/-- The same over a list of values. -/
def collect (max : ℕ) : List β → List β → List β
  | out, [] => out
  | out, b :: l =>
    if b ∈ out then collect max out l
    else if max ≤ out.length + 1 then out ++ [b]
    else collect max (out ++ [b]) l

theorem rotate_next (l : List α) (idx : ℕ) :
    l.rotate (if idx + 1 = l.length then 0 else idx + 1) = (l.rotate idx).rotate 1 := by
  rw [List.rotate_rotate]
  split
  · next hend => rw [hend, List.rotate_zero, List.rotate_length]
  · rfl

theorem walkFrom_eq (f : α → β) {cells : List α} {count max : ℕ} (hcount : count ≤ cells.length)
    {n idx : ℕ} (hn : n ≤ count) (hidx : idx < count) (out : List β) :
    walkFrom f cells count max n idx out =
      some (collect max out ((((cells.take count).rotate idx).take n).map f)) := by
  induction n generalizing idx out with
  | zero => simp [walkFrom, collect]
  | succ n ih =>
    have hlen : (cells.take count).length = count := by simp [hcount]
    have hnext : (if idx + 1 = count then 0 else idx + 1) < count := by split <;> omega
    obtain ⟨a, l, hal⟩ : ∃ a l, (cells.take count).rotate idx = a :: l := by
      apply List.exists_cons_of_length_pos
      rw [List.length_rotate, hlen]
      omega
    have hget : cells[idx]? = some a := by
      have h0 : ((cells.take count).rotate idx)[0]? = some a := by rw [hal]; rfl
      rw [List.getElem?_rotate (by omega), hlen, Nat.zero_add, Nat.mod_eq_of_lt hidx,
        List.getElem?_take_of_lt hidx] at h0
      exact h0
    -- behind the first cell of this revolution come the cells of the next one
    have hrot : ((cells.take count).rotate (if idx + 1 = count then 0 else idx + 1)).take n =
        l.take n := by
      have hr := rotate_next (cells.take count) idx
      rw [hlen] at hr
      have hl : n ≤ l.length := by
        have := congrArg List.length hal
        rw [List.length_rotate, hlen, List.length_cons] at this
        omega
      rw [hr, hal, List.rotate_cons_succ, List.rotate_zero, List.take_append_of_le_length hl]
    rw [walkFrom, hget, hal, List.take_succ_cons, List.map_cons, collect]
    dsimp only
    split
    · rw [ih (by omega) hnext, hrot]
    · split
      · rfl
      · rw [ih (by omega) hnext, hrot]

theorem collect_eq {max : ℕ} {out : List β} (hout : out.length < max) (l : List β) :
    collect max out l = (out ++ (l.filter fun b => b ∉ out).eraseDups).take max := by
  induction l generalizing out with
  | nil => simp [collect, List.take_of_length_le (Nat.le_of_lt hout)]
  | cons b l ih =>
    rw [collect, List.filter_cons]
    by_cases hb : b ∈ out
    · rw [if_pos hb, if_neg (by simpa using hb)]
      exact ih hout
    · have hnot : decide (b ∉ out) = true := decide_eq_true hb
      have hfilter : (l.filter fun c => c ∉ out).filter (fun c => !c == b) =
          l.filter fun c => c ∉ out ++ [b] := by
        rw [List.filter_filter]
        congr 1
        funext c
        by_cases hc : c ∈ out <;> by_cases hcb : c = b <;> simp [hc, hcb]
      rw [if_neg hb, if_pos hnot, List.eraseDups_cons, hfilter,
        List.append_cons out b (l.filter fun c => c ∉ out ++ [b]).eraseDups]
      have hlen : (out ++ [b]).length = out.length + 1 := by simp
      split
      · next hmax =>
        rw [List.take_append_of_le_length (by omega), List.take_of_length_le (by omega)]
      · exact ih (by omega)

theorem nodup_eraseDups (l : List β) : l.eraseDups.Nodup := by
  induction hn : l.length using Nat.strong_induction_on generalizing l with
  | _ n ih =>
    cases l with
    | nil => simp
    | cons b l =>
      rw [List.eraseDups_cons, List.nodup_cons]
      have hlt : (l.filter fun c => !c == b).length < n := by
        have := List.length_filter_le (fun c => !c == b) l
        rw [List.length_cons] at hn
        omega
      exact ⟨by simp [List.mem_eraseDups], ih _ hlt _ rfl⟩

end Walk

theorem eraseIdx_takeWhile [DecidableEq α] (a : α) (l : List α) :
    l.eraseIdx (l.takeWhile fun x => decide (x ≠ a)).length = l.erase a := by
  induction l with
  | nil => rfl
  | cons b l ih =>
    rw [List.takeWhile_cons, List.erase_cons]
    by_cases hb : b = a
    · simp [hb]
    · simp only [ne_eq, hb, not_false_eq_true, decide_true, if_true, List.length_cons,
        List.eraseIdx_cons_succ, beq_iff_eq, if_false]
      exact congrArg (b :: ·) ih

end MsgBroker.Lib
