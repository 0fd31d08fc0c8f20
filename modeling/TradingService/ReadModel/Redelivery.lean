import TradingService.ReadModel.Wallets

/-!
# Redelivered events

No event makes a user a second primary wallet, so the unique index refuses none. What an
event does to the place of a wallet is a `PlaceWrite` that the event alone decides. The
library's rule for replayed writes then speaks of every place.
-/

namespace TradingService

theorem VarChar.eq_of_store {n : ℕ} {s : String} {v w : VarChar n} (h : VarChar.store n s = some v)
    (hw : w.value = s) : w = v := by
  unfold VarChar.store at h
  split_ifs at h with hbind hlength
  · obtain rfl := Option.some.inj h
    obtain ⟨value, hvalue⟩ := w
    obtain rfl := hw
    rfl
  · exact absurd (hw ▸ w.length_le) hlength

theorem WalletRow.setPrimary_setPrimary (x y : Bool) (r : WalletRow) :
    setPrimary x (setPrimary y r) = setPrimary x r := rfl

theorem WalletRow.key_stamped (r : WalletRow) (now : ℤ) : (r.stamped now).key = r.key := rfl

theorem WalletReadModelRecord.store_eq (rec : WalletReadModelRecord) (now : ℤ) :
    rec.store now = (rec.store 0).map (WalletRow.stamped now) := by
  unfold store
  cases VarChar.store 64 rec.walletAddress with
  | none => rfl
  | some a =>
    cases VarChar.storeOption 88 rec.userAccountPda with
    | none => rfl
    | some pda => rfl

theorem WalletReadModelRecord.store_eq_some {rec : WalletReadModelRecord} {now : ℤ} {row : WalletRow}
    (h : rec.store now = some row) :
    row.userId = rec.userId ∧ VarChar.store 64 rec.walletAddress = some row.walletAddress ∧
      row.isPrimary = rec.isPrimary ∧ row.updatedAt = now := by
  unfold store at h
  obtain ⟨a, ha, h⟩ := Option.bind_eq_some_iff.mp h
  obtain ⟨pda, _, h⟩ := Option.bind_eq_some_iff.mp h
  obtain rfl := Option.some.inj h
  exact ⟨rfl, ha, rfl, rfl⟩

namespace WalletTable

variable {t t' : WalletTable} {now : ℤ}

section Rows

theorem mem_insertOrOverwrite {row r : WalletRow} (h : r ∈ (t.insertOrOverwrite row).rows) :
    r ∈ t.rows ∨ (r.key = row.key ∧ r.isPrimary = row.isPrimary ∧ r.updatedAt = row.updatedAt) := by
  unfold insertOrOverwrite at h
  split at h
  next t' hinsert =>
    rw [(KeyedTable.insert?_eq_some hinsert).2] at h
    rcases List.mem_cons.mp h with rfl | h
    · exact .inr ⟨rfl, rfl, rfl⟩
    · exact .inl h
  · obtain ⟨old, hold, rfl⟩ := List.mem_map.mp h
    by_cases hkey : old.key = row.key
    · rw [if_pos hkey]
      unfold overwrite
      split_ifs
      · exact .inr ⟨hkey, rfl, rfl⟩
      · exact .inl hold
    · rw [if_neg hkey]
      exact .inl hold

theorem mem_demoteSiblings {userId : Uuid} {walletAddress : String} {r : WalletRow}
    (h : r ∈ (t.demoteSiblings userId walletAddress now).rows) :
    (r ∈ t.rows ∧ ¬(r.userId = userId ∧ r.isPrimary ∧ r.walletAddress.value ≠ walletAddress)) ∨
      (r.userId = userId ∧ r.isPrimary = false ∧ r.updatedAt = now) := by
  obtain ⟨old, hold, rfl⟩ := List.mem_map.mp h
  split_ifs with hsibling
  · exact .inr ⟨hsibling.1, rfl, rfl⟩
  · exact .inl ⟨hold, hsibling⟩

theorem mem_writePrimary {userId : Uuid} {walletAddress : String} {isPrimary : Bool} {r : WalletRow}
    (h : r ∈ (t.writePrimary userId walletAddress isPrimary now).rows) :
    (r ∈ t.rows ∧ ¬(r.userId = userId ∧ r.walletAddress.value = walletAddress)) ∨
      (r.userId = userId ∧ r.walletAddress.value = walletAddress ∧ r.isPrimary = isPrimary ∧
        r.updatedAt = now) := by
  obtain ⟨old, hold, rfl⟩ := List.mem_map.mp h
  split_ifs with hmine
  · exact .inr ⟨hmine.1, hmine.2, rfl, rfl⟩
  · exact .inl ⟨hold, hmine⟩

end Rows

section OnePrimary

theorem checkPrimary_eq (h : t.OnePrimary) : checkPrimary t = .ok t := if_pos h

theorem OnePrimary.of_subset (h : t.OnePrimary) (hsub : ∀ r ∈ t'.rows, r.isPrimary → r ∈ t.rows) :
    t'.OnePrimary :=
  fun r hr r' hr' hp hp' => h r (hsub r hr hp) r' (hsub r' hr' hp') hp hp'

/-- The primary wallets of one user have all one key, and the other users keep theirs. -/
theorem OnePrimary.of_key (h : t.OnePrimary) (userId : Uuid)
    (hmine : ∀ r ∈ t'.rows, ∀ r' ∈ t'.rows, r.isPrimary → r'.isPrimary → r.userId = userId →
      r'.userId = userId → r.key = r'.key)
    (hother : ∀ r ∈ t'.rows, r.userId ≠ userId → r ∈ t.rows) : t'.OnePrimary := by
  intro r hr r' hr' hp hp' huser
  by_cases hid : r.userId = userId
  · exact KeyedTable.row_unique hr hr' (hmine r hr r' hr' hp hp' hid (huser ▸ hid))
  · exact h r (hother r hr hid) r' (hother r' hr' (huser ▸ hid)) hp hp' huser

theorem OnePrimary.upsert (h : t.OnePrimary) {rec : WalletReadModelRecord} {row : WalletRow}
    (hstore : rec.store now = some row) :
    (insertOrOverwrite (if rec.isPrimary then t.demoteSiblings rec.userId rec.walletAddress now else t)
      row).OnePrimary := by
  obtain ⟨huser, haddress, hprimary, _⟩ := WalletReadModelRecord.store_eq_some hstore
  by_cases hp : rec.isPrimary
  · rw [if_pos hp]
    have hkey : ∀ r ∈ (insertOrOverwrite (t.demoteSiblings rec.userId rec.walletAddress now) row).rows,
        r.isPrimary → r.userId = rec.userId → r.key = row.key := by
      intro r hr hrp hru
      rcases mem_insertOrOverwrite hr with hr | ⟨hkey, _⟩
      · rcases mem_demoteSiblings hr with ⟨_, hnot⟩ | ⟨_, hfalse, _⟩
        · have hvalue : r.walletAddress.value = rec.walletAddress := by
            by_contra hne
            exact hnot ⟨hru, hrp, hne⟩
          exact Prod.ext (hru.trans huser.symm) (VarChar.eq_of_store haddress hvalue)
        · rw [hfalse] at hrp
          cases hrp
      · exact hkey
    refine h.of_key rec.userId (fun r hr r' hr' hrp hrp' hru hru' =>
      (hkey r hr hrp hru).trans (hkey r' hr' hrp' hru').symm) fun r hr hru => ?_
    rcases mem_insertOrOverwrite hr with hr | ⟨hkey, _⟩
    · rcases mem_demoteSiblings hr with ⟨hr, _⟩ | ⟨hru', _⟩
      · exact hr
      · exact absurd hru' hru
    · exact absurd ((congrArg Prod.fst hkey).trans huser) hru
  · rw [if_neg hp]
    refine h.of_subset fun r hr hrp => ?_
    rcases mem_insertOrOverwrite hr with hr | ⟨_, hfalse, _⟩
    · exact hr
    · rw [hfalse, hprimary] at hrp
      exact absurd hrp hp

theorem OnePrimary.setPrimary (h : t.OnePrimary) (userId : Uuid) (walletAddress : String)
    (isPrimary : Bool) (now : ℤ) :
    ((if isPrimary then t.demoteSiblings userId walletAddress now else t).writePrimary userId
      walletAddress isPrimary now).OnePrimary := by
  cases isPrimary with
  | false =>
    refine h.of_subset fun r hr hrp => ?_
    rcases mem_writePrimary hr with ⟨hr, _⟩ | ⟨_, _, hfalse, _⟩
    · exact hr
    · rw [hfalse] at hrp
      cases hrp
  | true =>
    have hvalue : ∀ r ∈ ((t.demoteSiblings userId walletAddress now).writePrimary userId walletAddress
        true now).rows, r.isPrimary → r.userId = userId → r.walletAddress.value = walletAddress := by
      intro r hr hrp hru
      rcases mem_writePrimary hr with ⟨hr, _⟩ | ⟨_, hvalue, _⟩
      · rcases mem_demoteSiblings hr with ⟨_, hnot⟩ | ⟨_, hfalse, _⟩
        · by_contra hne
          exact hnot ⟨hru, hrp, hne⟩
        · rw [hfalse] at hrp
          cases hrp
      · exact hvalue
    refine h.of_key userId (fun r hr r' hr' hrp hrp' hru hru' => ?_) fun r hr hru => ?_
    · refine Prod.ext (hru.trans hru'.symm) ?_
      exact VarChar.ext ((hvalue r hr hrp hru).trans (hvalue r' hr' hrp' hru').symm)
    · rcases mem_writePrimary hr with ⟨hr, _⟩ | ⟨hru', _⟩
      · rcases mem_demoteSiblings hr with ⟨hr, _⟩ | ⟨hru', _⟩
        · exact hr
        · exact absurd hru' hru
      · exact absurd hru' hru

theorem OnePrimary.project (h : t.OnePrimary) (now : ℤ) (a : FeedAction) :
    t.project now a = .error .invalidText ∨ ∃ t', t.project now a = .ok t' ∧ t'.OnePrimary := by
  cases a with
  | upsertWallet rec =>
    cases hstore : rec.store now with
    | none => exact .inl (by rw [WalletTable.project, upsertWallet, hstore])
    | some row =>
      have hone := h.upsert hstore
      refine .inr ⟨_, ?_, hone⟩
      rw [WalletTable.project, upsertWallet, hstore]
      exact checkPrimary_eq hone
  | setWalletPrimary userId walletAddress isPrimary =>
    rw [WalletTable.project, setWalletPrimary]
    by_cases hbind : bindable walletAddress
    · have hone := h.setPrimary userId walletAddress isPrimary now
      rw [if_neg (not_not_intro hbind)]
      exact .inr ⟨_, checkPrimary_eq hone, hone⟩
    · exact .inl (if_pos hbind)
  | deleteWallet userId walletAddress =>
    rw [WalletTable.project, deleteWallet]
    by_cases hbind : bindable walletAddress
    · rw [if_neg (not_not_intro hbind)]
      exact .inr ⟨_, rfl, h.of_subset fun r hr _ => List.mem_of_mem_filter hr⟩
    · exact .inl (if_pos hbind)
  | upsertMeter rec => exact .inr ⟨t, rfl, h⟩
  | badPayload eventType => exact .inr ⟨t, rfl, h⟩
  | skip eventType => exact .inr ⟨t, rfl, h⟩

theorem OnePrimary.handlePayload (h : t.OnePrimary) (now : ℤ) (event : FeedEvent) :
    (t.handlePayload now event).OnePrimary := by
  unfold WalletTable.handlePayload
  rcases h.project now (classify event) with herror | ⟨t', hok, hone⟩
  · rw [herror]
    exact h
  · rw [hok]
    exact hone

end OnePrimary

def contentAt (t : WalletTable) (k : Uuid × VarChar 64) : Option WalletRow :=
  (t.find? k).map WalletRow.content

/-- The two tables have the same rows, up to the times of their last writes. -/
def SameRows (t t' : WalletTable) : Prop := ∀ k, t.contentAt k = t'.contentAt k

section Contents

variable (t now) in
theorem contentAt_demoteSiblings (userId : Uuid) (walletAddress : String) (k : Uuid × VarChar 64) :
    (t.demoteSiblings userId walletAddress now).contentAt k =
      if k.1 = userId ∧ k.2.value ≠ walletAddress then (t.contentAt k).map (WalletRow.setPrimary false)
      else t.contentAt k := by
  unfold contentAt demoteSiblings
  rw [KeyedTable.find?_mapRows]
  cases hrow : t.find? k with
  | none => simp
  | some r =>
    obtain ⟨_, rfl⟩ := KeyedTable.find?_eq_some.mp hrow
    simp only [Option.map_some]
    by_cases hsibling : r.key.1 = userId ∧ r.key.2.value ≠ walletAddress
    · rw [if_pos hsibling]
      by_cases hp : r.isPrimary
      · rw [if_pos ⟨hsibling.1, hp, hsibling.2⟩]
        rfl
      · rw [if_neg fun h => hp h.2.1, WalletRow.setPrimary, ← Bool.eq_false_of_not_eq_true hp]
        rfl
    · rw [if_neg hsibling, if_neg fun h => hsibling ⟨h.1, h.2.2⟩]

variable (t now) in
theorem contentAt_writePrimary (userId : Uuid) (walletAddress : String) (isPrimary : Bool)
    (k : Uuid × VarChar 64) :
    (t.writePrimary userId walletAddress isPrimary now).contentAt k =
      if k.1 = userId ∧ k.2.value = walletAddress then
        (t.contentAt k).map (WalletRow.setPrimary isPrimary)
      else t.contentAt k := by
  unfold contentAt writePrimary
  rw [KeyedTable.find?_mapRows]
  cases hrow : t.find? k with
  | none => simp
  | some r =>
    obtain ⟨_, rfl⟩ := KeyedTable.find?_eq_some.mp hrow
    simp only [Option.map_some]
    by_cases hmine : r.key.1 = userId ∧ r.key.2.value = walletAddress
    · rw [if_pos hmine, if_pos ⟨hmine.1, hmine.2⟩]
      rfl
    · rw [if_neg hmine, if_neg fun h => hmine ⟨h.1, h.2⟩]

theorem contentAt_insertOrOverwrite {row : WalletRow} (hclock : ∀ r ∈ t.rows, r.updatedAt ≤ row.updatedAt)
    (k : Uuid × VarChar 64) :
    (t.insertOrOverwrite row).contentAt k = if row.key = k then some row.content else t.contentAt k := by
  unfold contentAt insertOrOverwrite
  split
  next t' hinsert =>
    rw [KeyedTable.find?_of_insert? hinsert]
    split_ifs
    · rfl
    · rfl
  next hinsert =>
    rw [KeyedTable.modify, KeyedTable.find?_mapRows]
    cases hrow : t.find? k with
    | none =>
      have hkey : row.key ≠ k := by
        rintro rfl
        obtain ⟨r, hr, hkey⟩ := KeyedTable.insert?_eq_none.mp hinsert
        exact KeyedTable.find?_eq_none.mp hrow r hr hkey
      rw [if_neg hkey]
      rfl
    | some r =>
      obtain ⟨hr, rfl⟩ := KeyedTable.find?_eq_some.mp hrow
      simp only [Option.map_some]
      by_cases hkey : r.key = row.key
      · obtain ⟨huser, haddress⟩ := Prod.mk.inj hkey
        rw [if_pos hkey, if_pos hkey.symm, overwrite, if_pos (hclock r hr)]
        simp only [WalletRow.content, huser, haddress]
      · rw [if_neg hkey, if_neg fun h => hkey h.symm]

variable (t) in
theorem contentAt_delete (userId : Uuid) (walletAddress : String) (k : Uuid × VarChar 64) :
    contentAt (t.delete fun r => r.userId = userId ∧ r.walletAddress.value = walletAddress) k =
      if k.1 = userId ∧ k.2.value = walletAddress then none else t.contentAt k := by
  unfold contentAt
  rw [KeyedTable.find?_delete]
  cases hrow : t.find? k with
  | none => simp
  | some r =>
    obtain ⟨_, rfl⟩ := KeyedTable.find?_eq_some.mp hrow
    by_cases hmine : r.key.1 = userId ∧ r.key.2.value = walletAddress
    · have hmine' : r.userId = userId ∧ r.walletAddress.value = walletAddress := hmine
      rw [if_pos hmine]
      simp [Option.filter, hmine']
    · have hmine' : ¬(r.userId = userId ∧ r.walletAddress.value = walletAddress) := hmine
      rw [if_neg hmine]
      simp [Option.filter, hmine']

end Contents

end WalletTable

/-- What an event does to the place of a wallet. -/
def FeedAction.writeAt (k : Uuid × VarChar 64) : FeedAction → PlaceWrite Bool WalletRow
  | .upsertWallet rec =>
    match rec.store 0 with
    | none => .keep
    | some row =>
      if row.key = k then .put (some row.content)
      else if rec.isPrimary ∧ k.1 = rec.userId ∧ k.2.value ≠ rec.walletAddress then .setField false
      else .keep
  | .setWalletPrimary userId walletAddress isPrimary =>
    if ¬bindable walletAddress then .keep
    else if k.1 = userId ∧ k.2.value = walletAddress then .setField isPrimary
    else if isPrimary ∧ k.1 = userId then .setField false
    else .keep
  | .deleteWallet userId walletAddress =>
    if bindable walletAddress ∧ k.1 = userId ∧ k.2.value = walletAddress then .put none else .keep
  | .upsertMeter _ => .keep
  | .badPayload _ => .keep
  | .skip _ => .keep

namespace WalletTable

variable {t t' : WalletTable} {now : ℤ}

theorem checkPrimary_eq_ok (h : checkPrimary t = .ok t') : t' = t := by
  unfold checkPrimary at h
  split_ifs at h
  exact (Except.ok.inj h).symm

theorem clock_demoteSiblings (hclock : ∀ r ∈ t.rows, r.updatedAt ≤ now) (userId : Uuid)
    (walletAddress : String) :
    ∀ r ∈ (t.demoteSiblings userId walletAddress now).rows, r.updatedAt ≤ now := by
  intro r hr
  rcases mem_demoteSiblings hr with ⟨hr, _⟩ | ⟨_, _, heq⟩
  · exact hclock r hr
  · exact heq.le

theorem contentAt_upsert (hclock : ∀ r ∈ t.rows, r.updatedAt ≤ now) {rec : WalletReadModelRecord}
    {row : WalletRow} (hstore : rec.store 0 = some row) (k : Uuid × VarChar 64) :
    ((if rec.isPrimary then t.demoteSiblings rec.userId rec.walletAddress now else t).insertOrOverwrite
        (row.stamped now)).contentAt k =
      ((FeedAction.upsertWallet rec).writeAt k).run WalletRow.setPrimary (t.contentAt k) := by
  have hclock' : ∀ r ∈ (if rec.isPrimary then t.demoteSiblings rec.userId rec.walletAddress now
      else t).rows, r.updatedAt ≤ now := by
    split_ifs
    · exact clock_demoteSiblings hclock _ _
    · exact hclock
  have hcontent := @contentAt_insertOrOverwrite _ (row.stamped now) hclock' k
  rw [hcontent, WalletRow.key_stamped, FeedAction.writeAt, hstore]
  simp only
  by_cases hkey : row.key = k
  · rw [if_pos hkey, if_pos hkey]
    rfl
  · rw [if_neg hkey, if_neg hkey]
    by_cases hp : rec.isPrimary
    · rw [if_pos hp, contentAt_demoteSiblings]
      by_cases hsibling : k.1 = rec.userId ∧ k.2.value ≠ rec.walletAddress
      · rw [if_pos hsibling, if_pos ⟨hp, hsibling⟩]
        rfl
      · rw [if_neg hsibling, if_neg fun h => hsibling h.2]
        rfl
    · rw [if_neg hp, if_neg fun h => hp h.1]
      rfl

theorem contentAt_setPrimary {userId : Uuid} {walletAddress : String} (hbind : bindable walletAddress)
    (isPrimary : Bool) (k : Uuid × VarChar 64) :
    ((if isPrimary then t.demoteSiblings userId walletAddress now else t).writePrimary userId
        walletAddress isPrimary now).contentAt k =
      ((FeedAction.setWalletPrimary userId walletAddress isPrimary).writeAt k).run WalletRow.setPrimary
        (t.contentAt k) := by
  rw [FeedAction.writeAt, if_neg (not_not_intro hbind), contentAt_writePrimary]
  by_cases hmine : k.1 = userId ∧ k.2.value = walletAddress
  · rw [if_pos hmine, if_pos hmine]
    split_ifs
    · rw [contentAt_demoteSiblings, if_neg fun h => h.2 hmine.2]
      rfl
    · rfl
  · rw [if_neg hmine, if_neg hmine]
    by_cases hp : isPrimary
    · rw [if_pos hp, contentAt_demoteSiblings]
      by_cases huser : k.1 = userId
      · rw [if_pos ⟨huser, fun h => hmine ⟨huser, h⟩⟩, if_pos ⟨hp, huser⟩]
        rfl
      · rw [if_neg fun h => huser h.1, if_neg fun h => huser h.2]
        rfl
    · rw [if_neg hp, if_neg fun h => hp h.1]
      rfl

/-- At every place an event is its write, accepted or not. -/
theorem contentAt_handlePayload (hone : t.OnePrimary) (hclock : ∀ r ∈ t.rows, r.updatedAt ≤ now)
    (event : FeedEvent) (k : Uuid × VarChar 64) :
    (t.handlePayload now event).contentAt k =
      ((classify event).writeAt k).run WalletRow.setPrimary (t.contentAt k) := by
  unfold handlePayload
  cases classify event with
  | upsertWallet rec =>
    rw [WalletTable.project, upsertWallet, WalletReadModelRecord.store_eq]
    cases hstore : rec.store 0 with
    | none =>
      rw [FeedAction.writeAt, hstore]
      rfl
    | some row =>
      have hnow : rec.store now = some (row.stamped now) := by
        rw [WalletReadModelRecord.store_eq, hstore]
        rfl
      simp only [Option.map_some, upsertRow, checkPrimary_eq (hone.upsert hnow)]
      exact contentAt_upsert hclock hstore k
  | setWalletPrimary userId walletAddress isPrimary =>
    rw [WalletTable.project, setWalletPrimary]
    by_cases hbind : bindable walletAddress
    · rw [if_neg (not_not_intro hbind),
        checkPrimary_eq (hone.setPrimary userId walletAddress isPrimary now)]
      exact contentAt_setPrimary hbind isPrimary k
    · rw [FeedAction.writeAt, if_pos hbind, if_pos hbind]
      rfl
  | deleteWallet userId walletAddress =>
    rw [FeedAction.writeAt, WalletTable.project, deleteWallet]
    by_cases hbind : bindable walletAddress
    · rw [if_neg (not_not_intro hbind)]
      simp only
      rw [contentAt_delete]
      by_cases hmine : k.1 = userId ∧ k.2.value = walletAddress
      · rw [if_pos hmine, if_pos ⟨hbind, hmine⟩]
        rfl
      · rw [if_neg hmine, if_neg fun h => hmine h.2]
        rfl
    · rw [if_pos hbind, if_neg fun h => hbind h.1]
      rfl
  | upsertMeter rec => rfl
  | badPayload eventType => rfl
  | skip eventType => rfl

theorem clock_handlePayload (hclock : ∀ r ∈ t.rows, r.updatedAt ≤ now) (event : FeedEvent) :
    ∀ r ∈ (t.handlePayload now event).rows, r.updatedAt ≤ now := by
  unfold handlePayload
  split
  next t' hok =>
    cases haction : classify event with
    | upsertWallet rec =>
      rw [haction, WalletTable.project, upsertWallet] at hok
      split at hok
      · cases hok
      next row hstore =>
        obtain rfl := checkPrimary_eq_ok hok
        intro r hr
        rcases mem_insertOrOverwrite hr with hr | ⟨_, _, heq⟩
        · split_ifs at hr
          · exact clock_demoteSiblings hclock _ _ r hr
          · exact hclock r hr
        · rw [heq, (WalletReadModelRecord.store_eq_some hstore).2.2.2]
    | setWalletPrimary userId walletAddress isPrimary =>
      rw [haction, WalletTable.project, setWalletPrimary] at hok
      by_cases hbind : bindable walletAddress
      · rw [if_neg (not_not_intro hbind)] at hok
        obtain rfl := checkPrimary_eq_ok hok
        intro r hr
        rcases mem_writePrimary hr with ⟨hr, _⟩ | ⟨_, _, _, heq⟩
        · split_ifs at hr
          · exact clock_demoteSiblings hclock _ _ r hr
          · exact hclock r hr
        · exact heq.le
      · rw [if_pos hbind] at hok
        cases hok
    | deleteWallet userId walletAddress =>
      rw [haction, WalletTable.project, deleteWallet] at hok
      split_ifs at hok
      obtain rfl := Except.ok.inj hok
      exact fun r hr => hclock r (List.mem_of_mem_filter hr)
    | upsertMeter rec =>
      rw [haction] at hok
      exact Except.ok.inj hok ▸ hclock
    | badPayload eventType =>
      rw [haction] at hok
      exact Except.ok.inj hok ▸ hclock
    | skip eventType =>
      rw [haction] at hok
      exact Except.ok.inj hok ▸ hclock
  · exact hclock

/-- The clock of the transactions does not go backwards. -/
structure ClockForward (t : WalletTable) (events : List (ℤ × FeedEvent)) : Prop where
  rows_le : ∀ r ∈ t.rows, ∀ e ∈ events, r.updatedAt ≤ e.1
  sorted : (events.map Prod.fst).Pairwise (· ≤ ·)

theorem ClockForward.tail {e : ℤ × FeedEvent} {events : List (ℤ × FeedEvent)}
    (h : t.ClockForward (e :: events)) : (t.handlePayload e.1 e.2).ClockForward events := by
  obtain ⟨hfirst, hsorted⟩ := List.pairwise_cons.mp h.sorted
  refine ⟨fun r hr e' he' => ?_, hsorted⟩
  have hclock := clock_handlePayload (fun r hr => h.rows_le r hr e List.mem_cons_self) e.2
  exact (hclock r hr).trans (hfirst e'.1 (List.mem_map_of_mem he'))

theorem contentAt_feed {events : List (ℤ × FeedEvent)} (hone : t.OnePrimary)
    (hclock : t.ClockForward events) (k : Uuid × VarChar 64) :
    (t.feed events).contentAt k = PlaceWrite.runAll WalletRow.setPrimary
      ((events.map Prod.snd).map fun event => (classify event).writeAt k) (t.contentAt k) := by
  induction events generalizing t with
  | nil => rfl
  | cons e events ih =>
    have hfirst := contentAt_handlePayload hone (fun r hr => hclock.rows_le r hr e List.mem_cons_self) e.2 k
    have hrest := ih (hone.handlePayload e.1 e.2) hclock.tail
    rw [hfirst] at hrest
    exact hrest

def step (t : WalletTable) (e : ℤ × FeedEvent) : Option WalletTable := some (t.handlePayload e.1 e.2)

/-- The unique index refuses nothing that the event writes. -/
def Accepts (t : WalletTable) (e : ℤ × FeedEvent) : Prop :=
  t.project e.1 (classify e.2) ≠ .error .uniqueViolation

theorem OnePrimary.accepts (h : t.OnePrimary) (e : ℤ × FeedEvent) : t.Accepts e := by
  intro herror
  rcases h.project e.1 (classify e.2) with htext | ⟨t', hok, _⟩
  · rw [htext] at herror
    cases herror
  · rw [hok] at herror
    cases herror

/-- A block of events never meets the unique index, keeps every user at one primary wallet
at most, and may be delivered again as a whole. -/
theorem redelivery_converges (hone : t.OnePrimary) {block again : List (ℤ × FeedEvent)}
    (hagain : again.map Prod.snd = block.map Prod.snd) (hclock : t.ClockForward (block ++ again)) :
    Runs.AllSteps step Accepts t (block ++ again) ∧ Runs.AllStates step OnePrimary t (block ++ again) ∧
      SameRows (t.feed (block ++ again)) (t.feed block) := by
  have hstep : ∀ t e t', OnePrimary t → step t e = some t' → OnePrimary t' := by
    intro t e t' h hs
    obtain rfl := Option.some.inj hs
    exact h.handlePayload e.1 e.2
  refine ⟨?_, Runs.AllStates.of_invariant hstep hone _, fun k => ?_⟩
  · apply Runs.AllSteps.of_invariant (I := OnePrimary) (C := fun _ _ => True) _ hone
      (Runs.AllSteps.trivial _ _)
    exact fun t e t' h _ hs => ⟨h.accepts e, hstep t e t' h hs⟩
  · have hfirst : t.ClockForward block :=
      ⟨fun r hr e he => hclock.rows_le r hr e (List.mem_append_left _ he),
        (List.pairwise_append.mp (List.map_append ▸ hclock.sorted)).1⟩
    rw [contentAt_feed hone hclock, contentAt_feed hone hfirst, List.map_append, hagain, List.map_append,
      PlaceWrite.runAll_append]
    exact PlaceWrite.runAll_runAll WalletRow.setPrimary_setPrimary _ _

def oneWallet : WalletTable where
  rows := [⟨1, ⟨"a", by decide⟩, true, true, none, none, 0⟩]
  keys_nodup := List.nodup_singleton _

def eventAbout (eventType walletAddress : String) : FeedEvent :=
  ⟨eventType, { FeedData.empty with userId := .given 1, walletAddress := .given walletAddress }⟩

def moveHouse (now : ℤ) : List (ℤ × FeedEvent) :=
  [(now, eventAbout "UserWalletLinked" "b"), (now, eventAbout "UserWalletPrimaryChanged" "a"),
    (now + 1, eventAbout "UserWalletUnlinked" "a")]

theorem redelivery_converges_moveHouse :
    Runs.AllSteps step Accepts oneWallet (moveHouse 1 ++ moveHouse 2) ∧
      Runs.AllStates step OnePrimary oneWallet (moveHouse 1 ++ moveHouse 2) ∧
        SameRows (oneWallet.feed (moveHouse 1 ++ moveHouse 2)) (oneWallet.feed (moveHouse 1)) :=
  redelivery_converges (by decide) rfl ⟨by decide, by decide⟩

end WalletTable

end TradingService
