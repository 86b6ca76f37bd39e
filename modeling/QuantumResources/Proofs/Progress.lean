import QuantumResources.Progress
import QuantumResources.Proofs.Number.Doubles

/-! Progress can be shown for every number of items. -/

namespace QuantumResources

namespace Progress

theorem exists_line (finished total : Nat) (value : Float) (some : 0 < finished)
    (within : finished ≤ total) : ∃ shown, line finished total (.real value) = .ok shown := by
  obtain ⟨ratio, isRatio⟩ := Binary64.exists_ofRatio some false within
  have divided : Scalar.div (.whole finished) (.whole total) = .ok (.real ratio) := by
    have notZero : total ≠ 0 := by omega
    have finishedNonneg : ¬ (finished : Int) < 0 := by omega
    have totalNonneg : ¬ (total : Int) < 0 := by omega
    change Scalar.wholeQuotient finished total = _
    simp [Scalar.wholeQuotient, notZero, finishedNonneg, totalNonneg, isRatio]
  unfold line
  rw [divided]
  exact ⟨_, rfl⟩

/-- A line is only shown after items that there are. -/
theorem exists_linesFrom (total count shown : Nat) (within : shown + count ≤ total / interval) :
    ∃ lines, linesFrom total (.real 0.0) count shown [] = .ok lines := by
  induction count generalizing shown with
  | zero => exact ⟨"", rfl⟩
  | succ count ih =>
    have reached : (shown + 1) * interval ≤ total :=
      (Nat.le_div_iff_mul_le (by decide)).mp (by omega)
    obtain ⟨first, isFirst⟩ := exists_line ((shown + 1) * interval) total (0.0 - 0.0)
      (Nat.mul_pos (by omega) (by decide)) reached
    obtain ⟨rest, isRest⟩ := ih (shown + 1) (by omega)
    refine ⟨first ++ rest, ?_⟩
    change (line ((shown + 1) * interval) total (.real (0.0 - 0.0)) >>= fun text =>
      linesFrom total (.real 0.0) count (shown + 1) [] >>= fun others => .ok (text ++ others)) = _
    rw [isFirst, Calc.ok_bind, isRest]
    rfl

theorem exists_text (total : Nat) : ∃ shown, text total [] = .ok shown := by
  obtain ⟨lines, isLines⟩ := exists_linesFrom total (total / interval) 0 (by omega)
  refine ⟨lines ++ "\rProgress: 100.00% \n", ?_⟩
  change (linesFrom total (.real 0.0) (total / interval) 0 [] >>= fun lines =>
    .ok (lines ++ "\rProgress: 100.00% \n")) = _
  rw [isLines]
  rfl

end Progress

end QuantumResources
