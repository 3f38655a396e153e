import ViabtcExchange.Listing
import ViabtcExchange.Replies
import ViabtcExchange.Uncrossed

/-!
# Markets that are listed (`me_trade.c`)

`init_trade` makes every market of the settings with `market_create`, and `load_markets_listing`
makes none: what it adds to `dict_market` is the address of a variable of its loop.

**Theorem (`markets_created`).** In a run in which every market row that is reached names a market
the engine has, every entry of `dict_market` is a market that `market_create` made of its row, and
`listing_update` leaves all of them as they are.
-/

namespace ViabtcExchange

section Requests

variable {D : Type} {mpd : Mpd D} {real : Bool} {e e' : Engine D} {op : Op D} {ret : ℤ} {name : String}
  {m : Market D} {o : Outcome D}

theorem finish_cases (hm : e.dictMarket.find name = some m) (ho : o.Decided e.statics m)
    (h : e.finish name o = (ret, e')) : e' = e ∨ ret = 0 := by
  obtain ⟨rfl, rfl⟩ := Prod.ext_iff.mp h
  rcases ho with ⟨-, hs, hmarket⟩ | hret
  · refine Or.inl ?_
    change e.put name o.statics o.market = e
    rw [hs, hmarket, Engine.put_self hm]
  · exact Or.inr hret

/-- A request is refused and changes nothing, or it is accepted. -/
theorem Engine.request_cases (h : e.request mpd real op = some (ret, e')) :
    e' = e ∨ e.step mpd real op = some e' := by
  suffices hcases : e' = e ∨ ret = 0 by
    refine hcases.imp id ?_
    rintro rfl
    exact Engine.step_of_request h
  cases op with
  | updateBalance args padding now =>
    have hpair := Option.some.inj h
    have hret := congrArg Prod.fst hpair
    have he := congrArg Prod.snd hpair
    rcases updateBalance_cases mpd real e args padding now with ⟨-, hsame⟩ | hzero
    · exact Or.inl (he.symm.trans hsame)
    · exact Or.inr (hret.symm.trans hzero)
  | limitOrder args =>
    simp only [request, putLimit] at h
    cases hm : e.dictMarket.find args.market with
    | none =>
      rw [hm] at h
      exact Or.inl (congrArg Prod.snd (Option.some.inj h)).symm
    | some m =>
      rw [hm] at h
      dsimp only at h
      split_ifs at h
      · exact Or.inl (congrArg Prod.snd (Option.some.inj h)).symm
      · obtain ⟨o, ho, hfin⟩ := Option.map_eq_some_iff.mp h
        exact finish_cases hm (decided_limit ho) hfin
  | marketOrder args =>
    simp only [request, putMarket] at h
    cases hm : e.dictMarket.find args.market with
    | none =>
      rw [hm] at h
      exact Or.inl (congrArg Prod.snd (Option.some.inj h)).symm
    | some m =>
      rw [hm] at h
      dsimp only at h
      split_ifs at h
      · exact Or.inl (congrArg Prod.snd (Option.some.inj h)).symm
      · obtain ⟨o, ho, hfin⟩ := Option.map_eq_some_iff.mp h
        exact finish_cases hm (decided_market ho) hfin
  | cancelOrder args =>
    simp only [request, cancel, marketGetOrder] at h
    cases hm : e.dictMarket.find args.market with
    | none =>
      rw [hm] at h
      exact Or.inl (congrArg Prod.snd (Option.some.inj h)).symm
    | some m =>
      simp only [hm] at h
      split_ifs at h
      · dsimp only at h
        split_ifs at h
        · exact Or.inl (congrArg Prod.snd (Option.some.inj h)).symm
        · exact Or.inr (congrArg Prod.fst (Option.some.inj h)).symm
      · exact Or.inl (congrArg Prod.snd (Option.some.inj h)).symm
  | expire now => exact Or.inr (congrArg Prod.fst (Option.some.inj h)).symm

end Requests

namespace Configured

/-! ## Runs -/

section Runs

variable {D : Type}

/-- A request, or `listing_update` with what is in the file. -/
inductive ListingOp (D : Type)
  | request (op : Op D)
  | listing (file : Option Json)

/-- A request that would read a market through the address of a variable that is gone, or work on a
balance kept with a negative precision. -/
def Undefined (c : Configured D) : Op D → Prop
  | .updateBalance args _ _ => (c.oddAssets.find args.asset).isSome = true
  | .limitOrder args => c.getMarket args.market = some .stack
  | .marketOrder args => c.getMarket args.market = some .stack
  | .cancelOrder args => c.getMarket args.market = some .stack
  | .expire _ => False

variable (mpd : Mpd D) (real : Bool) (decimal : String → Option D)

/-- A request may be refused. What an update makes of a balance that is kept with a negative
precision is left open. -/
inductive Step (c : Configured D) : ListingOp D → Configured D → Prop
  | request {op ret e} : ¬c.Undefined op → c.engine.request mpd real op = some (ret, e) →
    Step c (.request op) { c with engine := e }
  | oddUpdate {args padding now s d} : c.Undefined (.updateBalance args padding now) →
    s.fixed = c.engine.statics.fixed → Step c (.request (.updateBalance args padding now))
      { c with engine := { c.engine with statics := s, dictUpdate := d } }
  | listing (file : Option Json) : Step c (.listing file) (c.listingUpdate decimal file).2

/-- The states a run from `c₀` comes to whose operations satisfy `Q`. -/
inductive Reached (Q : Configured D → ListingOp D → Prop) (c₀ : Configured D) :
    Configured D → Prop
  | start : Reached Q c₀ c₀
  | step {c c' op} : Reached Q c₀ c → Q c op → c.Step mpd real decimal op c' → Reached Q c₀ c'

/-- `init_balance`: `none` where an asset is listed twice. -/
def initBalance : List (String × AssetType) → Dict String AssetType →
    Option (Dict String AssetType)
  | [], dictAsset => some dictAsset
  | (name, ty) :: assets, dictAsset =>
    if name ∈ dictAsset then none else initBalance assets (dictAsset.insert name ty)

/-- The engine at its start, with its settings. -/
def init (assets : List (String × AssetType)) (confs : List (MarketConf D)) :
    Option (Configured D) :=
  (initBalance assets ∅).bind fun dictAsset =>
    (Engine.init mpd dictAsset confs).map fun e =>
      { engine := e
        oddAssets := ∅
        strays := ∅
        assets := assets.map fun p => some ⟨p.1, p.2.precSave, p.2.precShow⟩
        markets := confs.map fun conf =>
          some ⟨conf.name, conf.stock, conf.money, conf.feePrec, conf.stockPrec, conf.moneyPrec,
            conf.minAmount⟩ }

end Runs

/-! ## What a run keeps -/

section Kept

variable {real : Bool} {decimal : String → Option ℚ} {assets : List (String × AssetType)}
  {confs : List (MarketConf ℚ)} {c₀ c c' : Configured ℚ} {op : ListingOp ℚ} {name : String}

/-- Every market row that is reached has the name of a market. -/
def ReachesKnown (decimal : String → Option ℚ) (c : Configured ℚ) : ListingOp ℚ → Prop
  | .request _ => True
  | .listing file => ∀ rows, fileRows file "assets" = some rows → AllRead readAsset rows →
    ∀ rows', fileRows file "markets" = some rows' → ∀ row ∈ rowsRead (readMarket decimal) rows',
      c.getMarket row.name ≠ none

/-- The markets are those of the start, with their configurations and sound books. -/
structure Intact (c₀ c : Configured ℚ) : Prop where
  strays : c.strays = ∅
  kept : c.engine.Markets (Engine.Kept c₀.engine.dictMarket)
  dictAsset : ∀ name ty, c₀.engine.statics.ledger.dictAsset.find name = some ty →
    c.engine.statics.ledger.dictAsset.find name = some ty

theorem getMarket_of_strays (h : c.strays = ∅) (name : String) :
    c.getMarket name = (c.engine.dictMarket.find name).map .created := by
  unfold getMarket
  cases c.engine.dictMarket.find name with
  | some m => rfl
  | none => rw [h, if_neg (Finset.notMem_empty _)]; rfl

/-- A market that was created stays as it is. -/
theorem Updated.getMarket {file : Option Json} {ret : ℤ} {m : Market ℚ}
    (hupd : Updated decimal c file ret c') (h : c.getMarket name = some (.created m)) :
    c'.getMarket name = some (.created m) := by
  have hkeeps : ∀ {c₁ rows}, AssetsLoaded c rows c₁ → c₁.getMarket name = some (.created m) :=
    fun hload => (hload.getMarket name).trans h
  have hkeeps' : ∀ {c₁ c₂ rows rows'}, AssetsLoaded c rows c₁ → MarketsLoaded decimal c₁ rows' c₂ →
      c₂.getMarket name = some (.created m) := fun hload hload' => by
    rw [hload'.getMarket, hkeeps hload, Option.some_or]
  cases hupd with
  | unread _ => exact h
  | badAsset _ hload _ => exact hkeeps hload
  | noMarkets _ hload _ _ => exact hkeeps hload
  | badMarket _ hload _ _ hload' _ => exact hkeeps' hload hload'
  | done _ hload _ _ hload' _ _ => exact hkeeps' hload hload'

theorem Updated.extends {file : Option Json} {ret : ℤ} (hupd : Updated decimal c file ret c') :
    Extends c c' := by
  cases hupd with
  | unread _ => exact Extends.refl c
  | badAsset _ hload _ => exact hload.toExtends
  | noMarkets _ hload _ _ => exact hload.toExtends
  | badMarket _ hload _ _ hload' _ => exact hload.toExtends.trans hload'.toExtends
  | done _ hload _ _ hload' _ _ => exact hload.toExtends.trans hload'.toExtends

/-- With names of markets only, the dictionary stays as it is. -/
theorem Updated.getMarket_eq {file : Option Json} {ret : ℤ} (hupd : Updated decimal c file ret c')
    (hknown : c.ReachesKnown decimal (.listing file)) (name : String) :
    c'.getMarket name = c.getMarket name := by
  have hkeeps : ∀ {c₁ c₂ rows rows'}, fileRows file "assets" = some rows → AllRead readAsset rows →
      fileRows file "markets" = some rows' → AssetsLoaded c rows c₁ →
      MarketsLoaded decimal c₁ rows' c₂ → c₂.getMarket name = c.getMarket name := by
    intro c₁ c₂ rows rows' hrows hread hrows' hload hload'
    rw [hload'.getMarket, hload.getMarket]
    cases hslot : c.getMarket name with
    | some slot => rfl
    | none =>
      rw [Option.none_or, Option.map_eq_none_iff, List.find?_eq_none]
      intro row hrow
      have hne := hknown rows hrows hread rows' hrows' row hrow
      simp only [decide_eq_true_eq]
      rintro rfl
      exact hne hslot
  cases hupd with
  | unread _ => rfl
  | badAsset _ hload _ => exact hload.getMarket name
  | noMarkets _ hload _ _ => exact hload.getMarket name
  | badMarket hrows hload hread hrows' hload' _ => exact hkeeps hrows hread hrows' hload hload'
  | done hrows hload hread hrows' hload' _ _ => exact hkeeps hrows hread hrows' hload hload'

/-- Nothing else does: a row with a new name adds it. -/
theorem Updated.reachesKnown {file : Option Json} {ret : ℤ} (hupd : Updated decimal c file ret c')
    (hsame : ∀ name, c'.getMarket name = c.getMarket name) :
    c.ReachesKnown decimal (.listing file) := by
  intro rows hrows hread rows' hrows' row hrow hnone
  have hadds : ∀ {c₁ c₂}, AssetsLoaded c rows c₁ → MarketsLoaded decimal c₁ rows' c₂ →
      c₂.getMarket row.name ≠ none := fun hload hload' hnone' => by
    rw [hload'.getMarket, hload.getMarket, hnone, Option.none_or, Option.map_eq_none_iff,
      List.find?_eq_none] at hnone'
    exact hnone' row hrow (by simp)
  have hnone' : c'.getMarket row.name = none := (hsame row.name).trans hnone
  cases hupd with
  | unread h => simp [h] at hrows
  | badAsset h _ hbad =>
    obtain rfl := Option.some.inj (hrows.symm.trans h)
    exact hbad hread
  | noMarkets _ _ _ h => simp [h] at hrows'
  | badMarket h hload _ h' hload' _ =>
    obtain rfl := Option.some.inj (hrows.symm.trans h)
    obtain rfl := Option.some.inj (hrows'.symm.trans h')
    exact hadds hload hload' hnone'
  | done h hload _ h' hload' _ _ =>
    obtain rfl := Option.some.inj (hrows.symm.trans h)
    obtain rfl := Option.some.inj (hrows'.symm.trans h')
    exact hadds hload hload' hnone'

theorem Updated.strays {file : Option Json} {ret : ℤ} (hupd : Updated decimal c file ret c')
    (hname : name ∈ c'.strays) : name ∈ c.strays ∨ c.getMarket name = none := by
  have hkeeps : ∀ {c₁ rows}, AssetsLoaded c rows c₁ → name ∈ c₁.strays → name ∈ c.strays :=
    fun hload hmem => hload.strays ▸ hmem
  have hkeeps' : ∀ {c₁ c₂ rows rows'}, AssetsLoaded c rows c₁ → MarketsLoaded decimal c₁ rows' c₂ →
      name ∈ c₂.strays → name ∈ c.strays ∨ c.getMarket name = none := fun hload hload' hmem =>
    (hload'.strays name hmem).imp (hkeeps hload) fun h => (hload.getMarket name).symm.trans h
  cases hupd with
  | unread _ => exact Or.inl hname
  | badAsset _ hload _ => exact Or.inl (hkeeps hload hname)
  | noMarkets _ hload _ _ => exact Or.inl (hkeeps hload hname)
  | badMarket _ hload _ _ hload' _ => exact hkeeps' hload hload' hname
  | done _ hload _ _ hload' _ _ => exact hkeeps' hload hload' hname

theorem Intact.step (h : Intact c₀ c) (hknown : c.ReachesKnown decimal op)
    (hstep : c.Step decimal128 real decimal op c') : Intact c₀ c' := by
  cases hstep with
  | request _ hreq =>
    rcases Engine.request_cases hreq with rfl | haccept
    · exact h
    · refine ⟨h.strays, Engine.kept_step roundsDown_roundDown h.kept haccept, fun name ty hty => ?_⟩
      rw [(Engine.step_fixed haccept).1]
      exact h.dictAsset name ty hty
  | @oddUpdate args padding now s d _ hfixed =>
    have hn : s.orderIdStart = c.engine.statics.orderIdStart := congrArg Prod.fst hfixed
    have hassets : s.ledger.dictAsset = c.engine.statics.ledger.dictAsset :=
      congrArg Prod.snd hfixed
    refine ⟨h.strays, fun name m hm => ?_, fun name ty hty => ?_⟩
    · have hkept := h.kept name m hm
      rw [← hn] at hkept
      exact hkept
    · change s.ledger.dictAsset.find name = some ty
      rw [hassets]
      exact h.dictAsset name ty hty
  | listing file =>
    have hupd := listingUpdate_updated decimal c file
    have hextends := hupd.extends
    refine ⟨Finset.eq_empty_of_forall_notMem fun name hmem => ?_, fun name m hm => ?_,
      fun name ty hty => hextends.dictAsset name ty (h.dictAsset name ty hty)⟩
    · have hnone := (hupd.strays hmem).resolve_left (by simp [h.strays])
      rw [← hupd.getMarket_eq hknown name] at hnone
      unfold Configured.getMarket at hnone
      split at hnone
      · cases hnone
      · rw [if_pos hmem] at hnone
        cases hnone
    · rw [hextends.dictMarket] at hm
      rw [hextends.orderIdStart]
      exact h.kept name m hm

/-- A market that `market_create` made of its row, with dictionaries and books of its own. -/
structure Created (confs : List (MarketConf ℚ)) (c₀ c : Configured ℚ) (name : String)
    (m : Market ℚ) : Prop where
  conf : m.conf ∈ confs
  create : ∃ m₀, c₀.getMarket name = some (.created m₀) ∧
    marketCreate decimal128 c₀.engine.statics.ledger.dictAsset m.conf = some m₀
  assets : ∃ stock money, Engine.ConfOk c.engine.statics.ledger.dictAsset m.conf stock money
  book : BookOk c.engine.statics.orderIdStart m
  name : m.name = name

theorem intact_init (hinit : init decimal128 assets confs = some c₀) :
    Intact c₀ c₀ ∧ ∃ dictAsset, Engine.init decimal128 dictAsset confs = some c₀.engine := by
  obtain ⟨dictAsset, -, hinit⟩ := Option.bind_eq_some_iff.mp hinit
  obtain ⟨e, he, rfl⟩ := Option.map_eq_some_iff.mp hinit
  exact ⟨⟨rfl, Engine.kept_init he, fun _ _ h => h⟩, dictAsset, he⟩

theorem Intact.created (hinit : init decimal128 assets confs = some c₀) (h : Intact c₀ c)
    {m : Market ℚ} (hm : c.engine.dictMarket.find name = some m) : Created confs c₀ c name m := by
  obtain ⟨-, dictAsset, he⟩ := intact_init hinit
  obtain ⟨hsame, hbook⟩ := h.kept name m hm
  obtain ⟨m₀, hm₀, hconf⟩ := Option.map_eq_some_iff.mp hsame
  obtain ⟨hledger, -, hmarkets⟩ := Engine.init_spec he
  obtain ⟨conf, hmem, hname, hcreate⟩ := hmarkets name m₀ hm₀
  obtain ⟨stock, money, hok⟩ := Engine.marketCreate_confOk hcreate
  have hconf' : m.conf = conf := hconf.symm.trans (Engine.marketCreate_spec hcreate).1
  have hassets : c₀.engine.statics.ledger.dictAsset = dictAsset := by rw [hledger]
  refine ⟨hconf' ▸ hmem, ⟨m₀, ?_, ?_⟩, ⟨stock, money, ?_⟩, hbook,
    (congrArg MarketConf.name hconf').trans hname⟩
  · rw [Configured.getMarket, hm₀]
  · rw [hassets, hconf']
    exact hcreate
  · rw [hconf']
    obtain ⟨hstock, hmoney, hdeal, hstockFee, hmoneyFee⟩ := hok
    rw [← hassets] at hstock hmoney
    exact ⟨h.dictAsset _ _ hstock, h.dictAsset _ _ hmoney, hdeal, hstockFee, hmoneyFee⟩

/-- **Runs that list no new market:** every entry of the dictionary is a market that was created
from its row, and `listing_update` leaves it as it is. -/
theorem markets_created (hinit : init decimal128 assets confs = some c₀)
    (h : Reached decimal128 real decimal (ReachesKnown decimal) c₀ c) :
    (∀ name slot, c.getMarket name = some slot → ∃ m, slot = .created m ∧ Created confs c₀ c name m) ∧
      ∀ file, (∀ name m, c.getMarket name = some (.created m) →
          (c.listingUpdate decimal file).2.getMarket name = some (.created m)) ∧
        (c.ReachesKnown decimal (.listing file) ↔ ∀ name,
          (c.listingUpdate decimal file).2.getMarket name = c.getMarket name) := by
  have hintact : Intact c₀ c := by
    induction h with
    | start => exact (intact_init hinit).1
    | step _ hknown hstep ih => exact ih.step hknown hstep
  refine ⟨fun name slot hslot => ?_, fun file => ⟨fun name m hm => ?_,
    fun hknown name => ?_, fun hsame => ?_⟩⟩
  · rw [getMarket_of_strays hintact.strays] at hslot
    obtain ⟨m, hm, rfl⟩ := Option.map_eq_some_iff.mp hslot
    exact ⟨m, rfl, hintact.created hinit hm⟩
  · exact (listingUpdate_updated decimal c file).getMarket hm
  · exact (listingUpdate_updated decimal c file).getMarket_eq hknown name
  · exact (listingUpdate_updated decimal c file).reachesKnown hsame

end Kept

end Configured

/-! ## Two files -/

open Configured

/-- One market row, of BTC for CNY. -/
def listingFile (name : String) : Json :=
  .object [("assets", .array [.object [("name", .string "ETH"), ("prec_save", .integer 20)]]),
    ("markets", .array [.object [("name", .string name),
      ("stock", .object [("name", .string "BTC"), ("prec", .integer 8)]),
      ("money", .object [("name", .string "CNY"), ("prec", .integer 8)])]])]

def exampleListing : Option (Configured ℚ) :=
  Configured.init decimal128 [("BTC", ⟨20, 8⟩), ("CNY", ⟨20, 8⟩)] [exampleConf 8]

/-- An ask comes to rest, and is there when its market has been listed again. -/
theorem markets_created_known :
    ∃ c₀ c m, exampleListing = some c₀ ∧
      Reached decimal128 true decimal128.setString (ReachesKnown decimal128.setString) c₀ c ∧
      c.getMarket "BTCCNY" = some (.created m) ∧ m.orders.card = 1 ∧
      Created [exampleConf 8] c₀ c "BTCCNY" m := by
  have hcheck : exampleListing.any (fun c₀ =>
      decide (c₀.oddAssets.find "BTC" = none ∧ c₀.strays = ∅) &&
        (c₀.engine.request decimal128 true (deposit 2 "BTC" 1 5)).any fun r =>
          (r.2.request decimal128 true (limitOrder 2 .ask 5 1 0 0)).any fun r' =>
            (r'.2.dictMarket.find "BTCCNY").any fun m => decide (m.orders.card = 1)) = true := by
    decide +kernel
  obtain ⟨c₀, hinit, hcheck⟩ := (Option.any_eq_true _ _).mp hcheck
  obtain ⟨hempty, hcheck⟩ := Bool.and_eq_true_iff.mp hcheck
  obtain ⟨hodd, hstrays⟩ := of_decide_eq_true hempty
  obtain ⟨r, hdeposit, hcheck⟩ := (Option.any_eq_true _ _).mp hcheck
  obtain ⟨r', hask, hcheck⟩ := (Option.any_eq_true _ _).mp hcheck
  obtain ⟨m, hm, hcard⟩ := (Option.any_eq_true _ _).mp hcheck
  have hcreated : ∀ {c : Configured ℚ}, c.strays = ∅ → c.getMarket "BTCCNY" ≠ some .stack :=
    fun h hslot => by
      rw [getMarket_of_strays h] at hslot
      simp at hslot
  have hfirst : c₀.Step decimal128 true decimal128.setString (.request (deposit 2 "BTC" 1 5))
      { c₀ with engine := r.2 } := .request (by simp [Undefined, deposit, hodd]) hdeposit
  have hsecond : Step decimal128 true decimal128.setString { c₀ with engine := r.2 }
      (.request (limitOrder 2 .ask 5 1 0 0)) { c₀ with engine := r'.2 } :=
    .request (hcreated hstrays) hask
  have hreached : Reached decimal128 true decimal128.setString
      (ReachesKnown decimal128.setString) c₀ { c₀ with engine := r'.2 } :=
    .step (.step .start (show c₀.ReachesKnown _ (.request _) from trivial) hfirst)
      (show ReachesKnown _ _ (.request _) from trivial) hsecond
  have hmarket : Configured.getMarket { c₀ with engine := r'.2 } "BTCCNY" = some (.created m) := by
    rw [Configured.getMarket, hm]
  have hknown : ReachesKnown decimal128.setString { c₀ with engine := r'.2 }
      (.listing (some (listingFile "BTCCNY"))) := by
    intro rows _ _ rows' hrows' row hrow
    have hnames : ((fileRows (some (listingFile "BTCCNY")) "markets").map fun rows =>
        (rowsRead (readMarket decimal128.setString) rows).map MarketRow.name) = some ["BTCCNY"] := by
      decide +kernel
    rw [hrows', Option.map_some] at hnames
    have hname : row.name ∈ ["BTCCNY"] := Option.some.inj hnames ▸ List.mem_map_of_mem hrow
    rw [List.mem_singleton.mp hname, hmarket]
    exact Option.some_ne_none _
  have hthird := hreached.step hknown (.listing _)
  obtain ⟨-, hkeeps⟩ := markets_created hinit hreached
  have hafter := (hkeeps (some (listingFile "BTCCNY"))).1 _ _ hmarket
  obtain ⟨m', hslot, hfrom⟩ := (markets_created hinit hthird).1 _ _ hafter
  cases hslot
  exact ⟨c₀, _, m, hinit, hthird, hafter, of_decide_eq_true hcard, hfrom⟩

/-- A new market is the address of a variable. -/
theorem new_market_stray :
    ∃ c₀ c, exampleListing = some c₀ ∧
      Reached decimal128 true decimal128.setString (fun _ _ => True) c₀ c ∧
      c.getMarket "ETHCNY" = some .stack := by
  have hcheck : exampleListing.any (fun c₀ => decide ((c₀.engine.dictMarket.find "ETHCNY").isNone ∧
      "ETHCNY" ∈ (c₀.listingUpdate decimal128.setString (some (listingFile "ETHCNY"))).2.strays)) =
        true := by
    decide +kernel
  obtain ⟨c₀, hinit, hcheck⟩ := (Option.any_eq_true _ _).mp hcheck
  obtain ⟨hnone, hstray⟩ := of_decide_eq_true hcheck
  refine ⟨c₀, _, hinit, .step .start trivial (.listing (some (listingFile "ETHCNY"))), ?_⟩
  have hextends := (listingUpdate_updated decimal128.setString c₀ (some (listingFile "ETHCNY"))).extends
  rw [Configured.getMarket, hextends.dictMarket, Option.isNone_iff_eq_none.mp hnone, if_pos hstray]

end ViabtcExchange
