import PretradeRisk.Doubles
import PretradeRisk.Orders

namespace PretradeRisk.Fingerprints

open Doubles Encoding Host Ieee Orders

def finiteNonzero : Set Float64 := {v | ∃ x h, v = .finite x h ∧ x ≠ 0}

theorem spells_finiteNonzero : Spells finiteNonzero := by
  refine spells_of_roundTrips fun v hv => ?_
  obtain ⟨x, h, rfl, -⟩ := hv
  exact decodeFloat_encodeFloat h

/-- Two orders have one fingerprint exactly when they are the same in symbol,
side, quantity and limit price, whatever stands in the symbol; nothing else of
an order goes into it. -/
theorem fingerprint_identifies :
    (∀ r s : OrderRequest Float64, r.Within finiteNonzero → s.Within finiteNonzero →
      (r.fingerprint = s.fingerprint ↔ r.symbol = s.symbol ∧ r.side = s.side ∧ r.quantity = s.quantity ∧
        r.limitPrice = s.limitPrice)) ∧
      ∀ r other : OrderRequest Float64,
        { other with
          symbol := r.symbol
          side := r.side
          quantity := r.quantity
          limitPrice := r.limitPrice }.fingerprint = r.fingerprint := by
  refine ⟨fun r s hr hs => ⟨fun h => ?_, ?_⟩, fun r other => ?_⟩
  · obtain ⟨hsymbol, hside, hquantity, hprice⟩ := spells_finiteNonzero.sameOrder_of_fingerprint hr hs h
    exact ⟨hsymbol, hside, hquantity, hprice⟩
  · rintro ⟨hsymbol, hside, hquantity, hprice⟩
    exact fingerprint_congr ⟨hsymbol, hside, hquantity, hprice⟩
  · exact fingerprint_congr ⟨rfl, rfl, rfl, rfl⟩

theorem within_bare (symbol : String) (side : Side) :
    (OrderRequest.bare symbol side (1 : Float64)).Within finiteNonzero :=
  ⟨⟨1, representable_one, rfl, one_ne_zero⟩, by simp [OrderRequest.bare]⟩

theorem fingerprint_identifies_spelled :
    (OrderRequest.bare "ES|BUY|1|MKT" .buy (1 : Float64)).fingerprint ≠
      (OrderRequest.bare "ES" .buy (1 : Float64)).fingerprint :=
  fun h => absurd ((fingerprint_identifies.1 _ _ (within_bare _ _) (within_bare _ _)).mp h).1 (by decide)

end PretradeRisk.Fingerprints
