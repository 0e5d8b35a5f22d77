import Narrowing.Equation.Choice
import Narrowing.Proofs.Number.TotalOrder

/-!
How members are ranked. Variables are compared by precision and then by the total order of their
widths, which carry no sign. Keeping the best of a list leaves the foremost variable: it ranks
before all that are listed before it, and none that is listed after it ranks before it.
-/
namespace Narrowing

theorem Value.width_unsigned (value : Value) : signBit value.width = false := by
  cases value with
  | scalar x => exact (by decide +kernel : signBit 0.0 = false)
  | interval range => exact abs_unsigned _

theorem Precision.rank_eq_iff (p q : Precision) : p.rank = q.rank ↔ p = q := by
  cases p <;> cases q <;> decide

namespace Variable

theorem ranksBefore_iff (v w : Variable) :
    v.ranksBefore w = true ↔ v.precision.rank < w.precision.rank ∨
      v.precision.rank = w.precision.rank ∧
        totalRank v.value.width < totalRank w.value.width := by
  rw [totalRank_lt_iff v.value.width_unsigned w.value.width_unsigned, Precision.rank_eq_iff]
  simp [ranksBefore, narrower]

/-- A variable that ranks before all those listed before it, and that none after it ranks before. -/
def Foremost (vs : List Variable) (v : Variable) : Prop :=
  ∃ before after, vs = before ++ v :: after ∧ (∀ w ∈ before, v.ranksBefore w = true) ∧
    ∀ w ∈ after, ¬ w.ranksBefore v = true

namespace Foremost
variable {best candidate v : Variable} {rest : List Variable}

theorem least {vs : List Variable} (foremost : Foremost vs v) :
    ∀ w ∈ vs, ¬ w.ranksBefore v = true := by
  obtain ⟨before, after, rfl, earlier, later⟩ := foremost
  intro w member
  rcases List.mem_append.mp member with early | member
  · have order := (ranksBefore_iff v w).mp (earlier w early)
    rw [ranksBefore_iff]
    omega
  · rcases List.mem_cons.mp member with rfl | late
    · rw [ranksBefore_iff]
      omega
    · exact later w late

theorem displace (foremost : Foremost (candidate :: rest) v)
    (before : candidate.ranksBefore best = true) : Foremost (best :: candidate :: rest) v := by
  have order := foremost.least candidate (by simp)
  obtain ⟨earlier, later, split, first, last⟩ := foremost
  refine ⟨best :: earlier, later, by rw [split]; rfl, ?_, last⟩
  refine List.forall_mem_cons.mpr ⟨?_, first⟩
  rw [ranksBefore_iff] at before order ⊢
  omega

theorem skip (foremost : Foremost (best :: rest) v)
    (notBefore : ¬ candidate.ranksBefore best = true) :
    Foremost (best :: candidate :: rest) v := by
  obtain ⟨earlier, later, split, first, last⟩ := foremost
  cases earlier with
  | nil =>
    obtain ⟨rfl, rfl⟩ := List.cons.inj split
    exact ⟨[], candidate :: rest, rfl, by simp, List.forall_mem_cons.mpr ⟨notBefore, last⟩⟩
  | cons b earlier =>
    obtain ⟨rfl, rfl⟩ := List.cons.inj split
    obtain ⟨beforeBest, first⟩ := List.forall_mem_cons.mp first
    refine ⟨best :: candidate :: earlier, later, rfl, ?_, last⟩
    refine List.forall_mem_cons.mpr ⟨beforeBest, List.forall_mem_cons.mpr ⟨?_, first⟩⟩
    rw [ranksBefore_iff] at beforeBest notBefore ⊢
    omega

end Foremost

theorem foldl_foremost (rest : List Variable) (best : Variable) :
    Foremost (best :: rest)
      (rest.foldl (fun best w => if w.ranksBefore best then w else best) best) := by
  induction rest generalizing best with
  | nil => exact ⟨[], [], rfl, by simp, by simp⟩
  | cons candidate rest ih =>
    rw [List.foldl_cons]
    split
    · rename_i before
      exact (ih candidate).displace before
    · rename_i notBefore
      exact (ih best).skip notBefore

end Variable

end Narrowing
