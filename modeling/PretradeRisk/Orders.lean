import PretradeRisk.Encoding

namespace PretradeRisk.Orders

open Encoding Host

inductive Side
  | buy
  | sell
  | sellShort
  deriving DecidableEq, Repr

def Side.value : Side → String
  | .buy => "BUY"
  | .sell => "SELL"
  | .sellShort => "SELL_SHORT"

def Side.isSell : Side → Bool
  | .buy => false
  | .sell | .sellShort => true

inductive SessionState
  | open
  | auction
  | preOpen
  | closed
  | halted
  | unknown
  deriving DecidableEq, Repr

def SessionState.value : SessionState → String
  | .open => "OPEN"
  | .auction => "AUCTION"
  | .preOpen => "PRE_OPEN"
  | .closed => "CLOSED"
  | .halted => "HALTED"
  | .unknown => "UNKNOWN"

/-- One order, plus the market and book context the controls evaluate it
against. `none` is "not supplied"; no limit price denotes a market order. -/
structure OrderRequest (F : Type) where
  symbol : String
  side : Side
  quantity : F
  limitPrice : Option F
  decisionPrice : Option F
  bestBid : Option F
  bestAsk : Option F
  referencePrice : Option F
  quoteAgeMillis : Option ℤ
  sessionState : SessionState
  openPositions : ℤ
  workingOrders : ℤ
  positionQuantity : F
  grossExposureUsd : F
  opposingRestingQuantity : F
  locateSecured : Bool

variable {F : Type}

def OrderRequest.bare [Zero F] (symbol : String) (side : Side) (quantity : F) : OrderRequest F :=
  ⟨symbol, side, quantity, none, none, none, none, none, none, .unknown, 0, 0, 0, 0, 0, false⟩

def Side.signedMultiplier [One F] [Neg F] (side : Side) : F := if side.isSell then -1 else 1

/-- The touch the order would cross: the bid for a sell, the ask for a buy. -/
def OrderRequest.touch (request : OrderRequest F) : Option F :=
  if request.side.isSell then request.bestBid else request.bestAsk

def OrderRequest.valuationPrice (request : OrderRequest F) : Option F :=
  match request.limitPrice, request.decisionPrice with
  | some price, _ => some price
  | none, some price => some price
  | none, none => request.touch

def OrderRequest.notionalUsd [Mul F] (request : OrderRequest F) : Option F :=
  match request.valuationPrice with
  | none => none
  | some price => some (request.quantity * price)

def OrderRequest.bandReferencePrice [Add F] [Div F] [IntCast F] (request : OrderRequest F) : Option F :=
  match request.referencePrice, request.bestBid, request.bestAsk with
  | some price, _, _ => some price
  | none, some bid, some ask => some ((bid + ask) / (2 : ℤ))
  | none, _, _ => none

def OrderRequest.projectedPosition [Add F] [Mul F] [One F] [Neg F] (request : OrderRequest F) : F :=
  request.positionQuantity + request.side.signedMultiplier * request.quantity

def OrderRequest.fingerprint [PyFloat F] (request : OrderRequest F) : String :=
  let price := match request.limitPrice with
    | none => "MKT"
    | some price => encodeFloat price
  request.symbol ++ "|" ++ request.side.value ++ "|" ++ encodeFloat request.quantity ++ "|" ++ price

theorem append_cons_inj_of_last {α : Type} {sep : α} {xs xs' ys ys' : List α} (hys : sep ∉ ys) (hys' : sep ∉ ys')
    (h : xs ++ sep :: ys = xs' ++ sep :: ys') : xs = xs' ∧ ys = ys' := by
  rcases List.append_eq_append_iff.mp h with ⟨mid, hxs, htail⟩ | ⟨mid, hxs, htail⟩
  · cases mid with
    | nil => simp_all
    | cons c mid =>
        exact absurd ((List.cons.inj htail).2 ▸ List.mem_append_right _ List.mem_cons_self) hys
  · cases mid with
    | nil => simp_all
    | cons c mid =>
        exact absurd ((List.cons.inj htail).2 ▸ List.mem_append_right _ List.mem_cons_self) hys'

/-- Equal in what the fingerprint is made of. -/
structure SameOrder (r s : OrderRequest F) : Prop where
  symbol : r.symbol = s.symbol
  side : r.side = s.side
  quantity : r.quantity = s.quantity
  limitPrice : r.limitPrice = s.limitPrice

structure OrderRequest.Within (numbers : Set F) (r : OrderRequest F) : Prop where
  quantity : r.quantity ∈ numbers
  limitPrice : ∀ price ∈ r.limitPrice, price ∈ numbers

/-- Numbers the encoding spells, each in its own way. -/
structure Spells [PyFloat F] (numbers : Set F) : Prop where
  injective : Set.InjOn encodeFloat numbers
  grammar : ∀ x ∈ numbers, matchesNumber (encodeFloat x) = true

variable [PyFloat F] {numbers : Set F} {r s : OrderRequest F}

theorem spells_of_roundTrips (h : ∀ x ∈ numbers, RoundTrips x) : Spells numbers := by
  refine ⟨fun x hx y hy heq => ?_, fun x hx => ?_⟩
  · have hround : decodeFloat (some (encodeFloat x)) = some x := h x hx
    rw [heq, show decodeFloat (some (encodeFloat y)) = some y from h y hy] at hround
    exact (Option.some.inj hround).symm
  · have hround : decodeFloat (some (encodeFloat x)) = some x := h x hx
    rw [decodeFloat] at hround
    by_contra hnot
    rw [if_neg hnot] at hround
    cases hround

theorem fingerprint_congr (h : SameOrder r s) : r.fingerprint = s.fingerprint := by
  rw [OrderRequest.fingerprint, OrderRequest.fingerprint, h.symbol, h.side, h.quantity, h.limitPrice]

def OrderRequest.priceField (r : OrderRequest F) : String :=
  match r.limitPrice with
  | none => "MKT"
  | some price => encodeFloat price

theorem Spells.separated (h : Spells numbers) {x : F} (hx : x ∈ numbers) : '|' ∉ (encodeFloat x).toList :=
  fun hmem => absurd (isNumberChar_of_matchesNumber (h.grammar x hx) '|' hmem) (by simp [IsNumberChar])

theorem Spells.ne_market (h : Spells numbers) {x : F} (hx : x ∈ numbers) : encodeFloat x ≠ "MKT" := by
  intro heq
  have hmem : 'M' ∈ (encodeFloat x).toList := by rw [heq]; decide
  exact absurd (isNumberChar_of_matchesNumber (h.grammar x hx) 'M' hmem) (by simp [IsNumberChar])

theorem Side.value_injective : Function.Injective Side.value := by
  intro a b h
  cases a <;> cases b <;> first | rfl | exact absurd h (by decide)

theorem Side.value_separated (side : Side) : '|' ∉ side.value.toList := by cases side <;> decide

theorem Spells.priceField_separated (h : Spells numbers) (hr : r.Within numbers) : '|' ∉ r.priceField.toList := by
  rw [OrderRequest.priceField]
  split
  · decide
  · exact h.separated (hr.limitPrice _ ‹_›)

theorem Spells.limitPrice_eq (h : Spells numbers) (hr : r.Within numbers) (hs : s.Within numbers)
    (heq : r.priceField = s.priceField) : r.limitPrice = s.limitPrice := by
  rw [OrderRequest.priceField, OrderRequest.priceField] at heq
  cases hp : r.limitPrice with
  | none => cases hq : s.limitPrice with
    | none => rfl
    | some price => exact absurd (by simpa [hp, hq] using heq.symm) (h.ne_market (hs.limitPrice _ hq))
  | some price => cases hq : s.limitPrice with
    | none => exact absurd (by simpa [hp, hq] using heq) (h.ne_market (hr.limitPrice _ hp))
    | some other =>
        exact congrArg some (h.injective (hr.limitPrice _ hp) (hs.limitPrice _ hq) (by simpa [hp, hq] using heq))

theorem fingerprint_toList (r : OrderRequest F) : r.fingerprint.toList =
    ((r.symbol.toList ++ '|' :: r.side.value.toList) ++ '|' :: (encodeFloat r.quantity).toList) ++
      '|' :: r.priceField.toList := by
  have h : "|".toList = ['|'] := rfl
  simp only [OrderRequest.fingerprint, String.toList_append, h, List.append_assoc, List.cons_append]
  rfl

/-- The fingerprint tells orders apart, whatever stands in the symbol: the
other three fields hold no separator. -/
theorem Spells.sameOrder_of_fingerprint (h : Spells numbers) (hr : r.Within numbers) (hs : s.Within numbers)
    (heq : r.fingerprint = s.fingerprint) : SameOrder r s := by
  have hlist := congrArg String.toList heq
  rw [fingerprint_toList, fingerprint_toList] at hlist
  obtain ⟨hrest, hprice⟩ := append_cons_inj_of_last (h.priceField_separated hr) (h.priceField_separated hs) hlist
  obtain ⟨hrest, hquantity⟩ := append_cons_inj_of_last (h.separated hr.quantity) (h.separated hs.quantity) hrest
  obtain ⟨hsymbol, hside⟩ := append_cons_inj_of_last r.side.value_separated s.side.value_separated hrest
  exact ⟨String.toList_inj.mp hsymbol, Side.value_injective (String.toList_inj.mp hside),
    h.injective hr.quantity hs.quantity (String.toList_inj.mp hquantity),
    h.limitPrice_eq hr hs (String.toList_inj.mp hprice)⟩

end PretradeRisk.Orders
