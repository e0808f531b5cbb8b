import MxSdk.Provider.ProxyProvider
import MxSdk.Vendor.Json.Conversions

/-! What the requests of the provider return, for whatever a gateway answers. A number that
the answer gives is returned as it is where it is a natural number of the type it is read
into, and is another number, or none, elsewhere. -/

namespace MxSdk

namespace Json

theorem find_orderedInsert (key : Bytes) (member : Bytes × Json) (members : List (Bytes × Json)) :
    OrderedMap.find key (members.orderedInsert (fun a b => a.1 ≤ b.1) member) =
      OrderedMap.find key (member :: members) := by
  induction members with
  | nil => rfl
  | cons other members ih =>
    rw [List.orderedInsert]
    split
    · rfl
    · rename_i hlt
      -- The keys differ, so the two members may change places.
      have hne : other.1 ≠ member.1 := fun heq => hlt (heq ▸ List.le_refl _)
      rw [OrderedMap.find, ih]
      simp only [OrderedMap.find]
      split
      · rename_i hkey
        rw [if_neg (hkey ▸ hne.symm)]
      · rfl

theorem find_items (key : Bytes) (members : List (Bytes × Json)) :
    OrderedMap.find key (object members).items = OrderedMap.find key members := by
  induction members with
  | nil => rfl
  | cons member members ih =>
    change OrderedMap.find key (List.insertionSort _ (member :: members)) = _
    rw [List.insertionSort_cons, find_orderedInsert]
    simp only [OrderedMap.find]
    exact congrArg _ ih

end Json

namespace ProxyProvider
open Http

theorem readBalance_ok_iff {holder : Json} {balance : BigUInt} :
    readBalance holder = .ok balance ↔
      holder.find (ascii "balance") = some (.string balance.value) := by
  rw [readBalance]
  constructor
  · intro h
    obtain ⟨member, hmember, h⟩ := bind_eq_ok h
    obtain ⟨text, htext, h⟩ := bind_eq_ok h
    rw [requireAttribute_ok_iff.mp hmember, Json.fromJson_ok_iff.mp htext,
      BigUInt.ofString_eq_ok_iff.mp h]
  · intro h
    rw [requireAttribute_ok_iff.mpr h]
    exact BigUInt.ofString_value balance

def balanceOf (holder : Json) : Option BigUInt := (readBalance holder).toOption

theorem balanceOf_eq_some_iff {holder : Json} {balance : BigUInt} :
    balanceOf holder = some balance ↔
      holder.find (ascii "balance") = some (.string balance.value) := by
  rw [← readBalance_ok_iff, balanceOf]
  cases readBalance holder with
  | error e => exact iff_of_false nofun nofun
  | ok b => simp [Except.toOption]

theorem emplace_apply (key other : Bytes) (value : BigUInt) (ret : Bytes → Option BigUInt) :
    emplace key value ret other = (ret other).or (if key = other then some value else none) := by
  rw [emplace]
  by_cases hkey : key = other
  · subst hkey
    cases hret : ret key with
    | none => simp
    | some b => simp [hret]
  · rw [if_neg hkey, Option.or_none]
    split
    · rfl
    · exact Function.update_of_ne (Ne.symm hkey) _ _

/-- The first item with a key decides, and every item has to give an amount. -/
theorem foldlM_emplaceItem_ok_iff {items : List (Bytes × Json)} {ret m : Bytes → Option BigUInt} :
    items.foldlM emplaceItem ret = .ok m ↔
      (∀ it ∈ items, (balanceOf it.2).isSome = true) ∧
        m = fun key => (ret key).or ((OrderedMap.find key items).bind balanceOf) := by
  induction items generalizing ret with
  | nil =>
    rw [List.foldlM_nil]
    simp only [OrderedMap.find, Option.bind_none, Option.or_none]
    exact ⟨fun h => ⟨List.forall_mem_nil _, (Except.ok.inj h).symm⟩,
      fun h => congrArg Except.ok h.2.symm⟩
  | cons it items ih =>
    rw [List.foldlM_cons, List.forall_mem_cons, emplaceItem]
    cases hread : readBalance it.2 with
    | error e =>
      have hnone : balanceOf it.2 = none := by rw [balanceOf, hread]; rfl
      rw [hnone]
      exact iff_of_false (fun h => by cases h) fun h => absurd h.1.1 (by decide)
    | ok balance =>
      have hsome : balanceOf it.2 = some balance := by rw [balanceOf, hread]; rfl
      have hmap : (fun key => (emplace it.1 balance ret key).or
            ((OrderedMap.find key items).bind balanceOf)) =
          fun key => (ret key).or ((OrderedMap.find key (it :: items)).bind balanceOf) := by
        funext key
        rw [emplace_apply, Option.or_assoc, OrderedMap.find]
        congr 1
        split
        · rw [Option.bind_some, hsome, Option.some_or]
        · rw [Option.none_or]
      change items.foldlM emplaceItem (emplace it.1 balance ret) = .ok m ↔ _
      rw [ih, hmap, hsome]
      simp

theorem readAllESDTBalances_ok_iff {result : HttpResult} {m : Bytes → Option BigUInt} :
    readAllESDTBalances result = .ok m ↔ ∃ data esdts, getPayLoad result = .ok data ∧
      data.find (ascii "esdts") = some esdts ∧
      (∀ it ∈ esdts.items, (balanceOf it.2).isSome = true) ∧
      m = fun key => (OrderedMap.find key esdts.items).bind balanceOf := by
  constructor
  · intro h
    obtain ⟨data, hdata, h⟩ := bind_eq_ok h
    obtain ⟨esdts, hesdts, h⟩ := bind_eq_ok h
    obtain ⟨hall, hm⟩ := foldlM_emplaceItem_ok_iff.mp h
    simp only [Option.none_or] at hm
    exact ⟨data, esdts, hdata, requireAttribute_ok_iff.mp hesdts, hall, hm⟩
  · rintro ⟨data, esdts, hdata, hesdts, hall, rfl⟩
    rw [readAllESDTBalances, hdata]
    simp only [bind, Except.bind, requireAttribute_ok_iff.mpr hesdts]
    exact foldlM_emplaceItem_ok_iff.mpr ⟨hall, by simp only [Option.none_or]⟩

section Numbers
variable [Platform]

theorem readAccount_ok_iff {address : Address} {result : HttpResult} {account : Account} :
    readAccount address result = .ok account ↔ account.address = address ∧
      ∃ data holder nonce, getPayLoad result = .ok data ∧
        data.find (ascii "account") = some holder ∧
        holder.find (ascii "balance") = some (.string account.balance.value) ∧
        holder.find (ascii "nonce") = some nonce ∧ nonce.getUInt64 = some account.nonce := by
  constructor
  · intro h
    obtain ⟨data, hdata, h⟩ := bind_eq_ok h
    obtain ⟨holder, hholder, h⟩ := bind_eq_ok h
    obtain ⟨balance, hbalance, h⟩ := bind_eq_ok h
    obtain ⟨nonce, hnonce, h⟩ := bind_eq_ok h
    obtain ⟨text, htext, h⟩ := bind_eq_ok h
    obtain ⟨n, hn, h⟩ := bind_eq_ok h
    obtain ⟨value, hvalue, h⟩ := bind_eq_ok h
    rw [← Except.ok.inj h]
    rw [Json.fromJson_ok_iff.mp htext] at hbalance
    rw [BigUInt.ofString_eq_ok_iff] at hvalue
    subst hvalue
    exact ⟨rfl, data, holder, nonce, hdata, requireAttribute_ok_iff.mp hholder,
      requireAttribute_ok_iff.mp hbalance, requireAttribute_ok_iff.mp hnonce,
      Json.fromJsonUInt64_ok_iff.mp hn⟩
  · rintro ⟨rfl, data, holder, nonce, hdata, hholder, hbalance, hnonce, hn⟩
    simp only [readAccount, hdata, bind, Except.bind, requireAttribute_ok_iff.mpr hholder,
      requireAttribute_ok_iff.mpr hbalance, requireAttribute_ok_iff.mpr hnonce, Json.fromJson,
      Json.fromJsonUInt64_ok_iff.mpr hn, BigUInt.ofString_value]

structure Configures (config : Json) (cfg : NetworkConfig) (perByte limit price : Json) : Prop where
  chainId : config.find (ascii "erd_chain_id") = some (.string cfg.chainId)
  find_perByte : config.find (ascii "erd_gas_per_data_byte") = some perByte
  find_limit : config.find (ascii "erd_min_gas_limit") = some limit
  find_price : config.find (ascii "erd_min_gas_price") = some price
  gasPerDataByte : perByte.getUInt32 = some cfg.gasPerDataByte
  minGasLimit : limit.getUInt32 = some cfg.minGasLimit
  minGasPrice : price.getUInt64 = some cfg.minGasPrice

theorem readNetworkConfig_ok_iff {result : HttpResult} {cfg : NetworkConfig} :
    readNetworkConfig result = .ok cfg ↔ ∃ data config perByte limit price,
      getPayLoad result = .ok data ∧ data.find (ascii "config") = some config ∧
      Configures config cfg perByte limit price := by
  constructor
  · intro h
    obtain ⟨data, hdata, h⟩ := bind_eq_ok h
    obtain ⟨config, hconfig, h⟩ := bind_eq_ok h
    obtain ⟨chainId, hchainId, h⟩ := bind_eq_ok h
    obtain ⟨perByte, hperByte, h⟩ := bind_eq_ok h
    obtain ⟨limit, hlimit, h⟩ := bind_eq_ok h
    obtain ⟨price, hprice, h⟩ := bind_eq_ok h
    obtain ⟨chain, hchain, h⟩ := bind_eq_ok h
    obtain ⟨gasPerDataByte, hgas, h⟩ := bind_eq_ok h
    obtain ⟨minGasLimit, hmin, h⟩ := bind_eq_ok h
    obtain ⟨minGasPrice, hminPrice, h⟩ := bind_eq_ok h
    rw [← Except.ok.inj h]
    rw [Json.fromJson_ok_iff.mp hchain] at hchainId
    exact ⟨data, config, perByte, limit, price, hdata, requireAttribute_ok_iff.mp hconfig,
      requireAttribute_ok_iff.mp hchainId, requireAttribute_ok_iff.mp hperByte,
      requireAttribute_ok_iff.mp hlimit, requireAttribute_ok_iff.mp hprice,
      Json.fromJsonUInt32_ok_iff.mp hgas, Json.fromJsonUInt32_ok_iff.mp hmin,
      Json.fromJsonUInt64_ok_iff.mp hminPrice⟩
  · rintro ⟨data, config, perByte, limit, price, hdata, hconfig, h⟩
    simp only [readNetworkConfig, hdata, bind, Except.bind, requireAttribute_ok_iff.mpr hconfig,
      requireAttribute_ok_iff.mpr h.chainId, requireAttribute_ok_iff.mpr h.find_perByte,
      requireAttribute_ok_iff.mpr h.find_limit, requireAttribute_ok_iff.mpr h.find_price, Json.fromJson,
      Json.fromJsonUInt32_ok_iff.mpr h.gasPerDataByte,
      Json.fromJsonUInt32_ok_iff.mpr h.minGasLimit, Json.fromJsonUInt64_ok_iff.mpr h.minGasPrice]

end Numbers

section Runs
variable [Httplib] {S : Type} {s s' : S} {tr : Conversation} {t : ProxyProvider}

/-- A request is refused with its URL, or put once and its answer read. -/
theorem runs_request_iff {α : Type} {path : Bytes} {read : HttpResult → Except Exception α}
    {outcome : Except Exception α} :
    (t.request path read : Program S α).Runs s tr outcome s' ↔ s' = s ∧
      ((∃ e, Httplib.newClient (cString t.url) = .error e ∧ tr = [] ∧ outcome = .error e) ∨
        Httplib.newClient (cString t.url) = .ok () ∧
          ∃ res, tr = [(.get (cString t.url) (cString path), res)] ∧
            outcome = read (wrappedResult res)) := by
  rw [request, Script.runs_lift_bind_iff]
  constructor
  · rintro (⟨e, he, rfl, rfl, rfl⟩ | ⟨client, hclient, h⟩)
    · exact ⟨rfl, .inl ⟨e, Client.new_error he, rfl, rfl⟩⟩
    · obtain ⟨hnew, rfl⟩ := Client.new_ok_iff.mp hclient
      obtain ⟨res, rfl, rfl, rfl⟩ := Client.runs_get_lift_iff.mp h
      exact ⟨rfl, .inr ⟨hnew, res, rfl, rfl⟩⟩
  · rintro ⟨rfl, ⟨e, he, rfl, rfl⟩ | ⟨hnew, res, rfl, rfl⟩⟩
    · exact .inl ⟨e, Client.new_of_error he, rfl, rfl, rfl⟩
    · exact .inr ⟨_, Client.new_ok_iff.mpr ⟨hnew, rfl⟩,
        Client.runs_get_lift_iff.mpr ⟨res, rfl, rfl, rfl⟩⟩

theorem runs_send_iff [Platform] {tx : Transaction} {outcome : Except Exception Bytes} :
    (t.send tx : Program S Bytes).Runs s tr outcome s' ↔ s' = s ∧
      ((∃ e, (Httplib.newClient (cString t.url) = .error e ∨
          Httplib.newClient (cString t.url) = .ok () ∧ tx.serialize = .error e) ∧
          tr = [] ∧ outcome = .error e) ∨
        Httplib.newClient (cString t.url) = .ok () ∧ ∃ message res, tx.serialize = .ok message ∧
          tr = [(.post (cString t.url) (ascii "/transaction/send") message contentTypeJson, res)] ∧
          outcome = readTxHash (wrappedResult res)) := by
  have hpath : cString (ascii "/transaction/send") = ascii "/transaction/send" := by decide +kernel
  rw [send, Script.runs_lift_bind_iff]
  simp only [Script.runs_lift_bind_iff, Client.runs_post_lift_iff, hpath]
  constructor
  · rintro (⟨e, he, rfl, rfl, rfl⟩ | ⟨client, hclient, h⟩)
    · exact ⟨rfl, .inl ⟨e, .inl (Client.new_error he), rfl, rfl⟩⟩
    · obtain ⟨hnew, rfl⟩ := Client.new_ok_iff.mp hclient
      rcases h with ⟨e, he, rfl, rfl, rfl⟩ | ⟨message, hmessage, res, rfl, rfl, rfl⟩
      · exact ⟨rfl, .inl ⟨e, .inr ⟨hnew, he⟩, rfl, rfl⟩⟩
      · exact ⟨rfl, .inr ⟨hnew, message, res, hmessage, rfl, rfl⟩⟩
  · rintro ⟨rfl, ⟨e, he | ⟨hnew, he⟩, rfl, rfl⟩ | ⟨hnew, message, res, hmessage, rfl, rfl⟩⟩
    · exact .inl ⟨e, Client.new_of_error he, rfl, rfl, rfl⟩
    · exact .inr ⟨_, Client.new_ok_iff.mpr ⟨hnew, rfl⟩, .inl ⟨e, he, rfl, rfl, rfl⟩⟩
    · exact .inr ⟨_, Client.new_ok_iff.mpr ⟨hnew, rfl⟩, .inr ⟨message, hmessage, res, rfl, rfl, rfl⟩⟩

theorem runs_request_ok_iff {α : Type} {path : Bytes} {read : HttpResult → Except Exception α}
    {a : α} : (t.request path read : Program S α).Runs s tr (.ok a) s' ↔ s' = s ∧
      Httplib.newClient (cString t.url) = .ok () ∧
      ∃ res, tr = [(.get (cString t.url) (cString path), res)] ∧ read (wrappedResult res) = .ok a := by
  rw [runs_request_iff]
  constructor
  · rintro ⟨hs, ⟨e, -, -, h⟩ | ⟨hnew, res, htr, h⟩⟩
    · cases h
    · exact ⟨hs, hnew, res, htr, h.symm⟩
  · rintro ⟨hs, hnew, res, htr, h⟩
    exact ⟨hs, .inr ⟨hnew, res, htr, h.symm⟩⟩

end Runs

section Results
variable [Httplib] {S : Type}

theorem getAllESDTBalances_ok_iff (t : ProxyProvider) (address : Address) (s s' : S)
    (tr : Conversation) (ret : Bytes → Option BigUInt) :
    (t.getAllESDTBalances address : Program S _).Runs s tr (.ok ret) s' ↔ s' = s ∧
      Httplib.newClient (cString t.url) = .ok () ∧ ∃ res data esdts,
        tr = [(.get (cString t.url)
          (cString (ascii "/address/" ++ address.bech32Address ++ ascii "/esdt")), res)] ∧
        getPayLoad (wrappedResult res) = .ok data ∧ data.find (ascii "esdts") = some esdts ∧
        (∀ it ∈ esdts.items, (balanceOf it.2).isSome = true) ∧
        (∀ token, ret token = (OrderedMap.find token esdts.items).bind balanceOf) ∧
        ∀ members, esdts = .object members → ∀ token balance, ret token = some balance ↔
          data.locate [ascii "esdts", token, ascii "balance"] = some (.string balance.value) := by
  rw [getAllESDTBalances, runs_request_ok_iff]
  simp only [readAllESDTBalances_ok_iff]
  refine and_congr_right fun _ => and_congr_right fun _ => exists_congr fun res => ?_
  constructor
  · rintro ⟨htr, data, esdts, hdata, hesdts, hall, rfl⟩
    refine ⟨data, esdts, htr, hdata, hesdts, hall, fun _ => rfl, ?_⟩
    rintro members rfl token balance
    simp only [Json.locate_cons, hesdts, Option.bind_some, Json.find_items]
    change _ ↔ ((OrderedMap.find token members).bind _) = _
    cases OrderedMap.find token members with
    | none => simp
    | some holder =>
      simp only [Option.bind_some, balanceOf_eq_some_iff]
      change _ ↔ ((Json.find _ holder).bind some) = _
      rw [Option.bind_fun_some]
  · rintro ⟨data, esdts, htr, hdata, hesdts, hall, hret, -⟩
    exact ⟨htr, data, esdts, hdata, hesdts, hall, funext hret⟩

variable [Platform]

/-- The nonce is the number of the answer exactly where that is a natural number that fits. -/
theorem getAccount_ok_iff (t : ProxyProvider) (address : Address) (s s' : S)
    (tr : Conversation) (account : Account) :
    (t.getAccount address : Program S _).Runs s tr (.ok account) s' ↔ s' = s ∧
      Httplib.newClient (cString t.url) = .ok () ∧ account.address = address ∧
      ∃ res data nonce,
        tr = [(.get (cString t.url) (cString (ascii "/address/" ++ address.bech32Address)), res)] ∧
        getPayLoad (wrappedResult res) = .ok data ∧
        data.locate [ascii "account", ascii "balance"] = some (.string account.balance.value) ∧
        data.locate [ascii "account", ascii "nonce"] = some nonce ∧
        nonce.getUInt64 = some account.nonce ∧
        (nonce.toRat = some (account.nonce.toNat : ℚ) ↔ nonce.IsNatural 64) := by
  rw [getAccount, runs_request_ok_iff]
  simp only [readAccount_ok_iff]
  refine and_congr_right fun _ => and_congr_right fun _ => ?_
  constructor
  · rintro ⟨res, htr, haddress, data, holder, nonce, hdata, hholder, hbalance, hnonce, hn⟩
    refine ⟨haddress, res, data, nonce, htr, hdata, ?_, ?_, hn, Json.getUInt64_exact_iff hn⟩
    · rw [Json.locate_cons, hholder, Option.bind_some, Json.locate_cons, hbalance]
      rfl
    · rw [Json.locate_cons, hholder, Option.bind_some, Json.locate_cons, hnonce]
      rfl
  · rintro ⟨haddress, res, data, nonce, htr, hdata, hbalance, hnonce, hn, -⟩
    cases hholder : data.find (ascii "account") with
    | none =>
      rw [Json.locate_cons, hholder] at hbalance
      cases hbalance
    | some holder =>
      rw [Json.locate_cons, hholder, Option.bind_some] at hbalance hnonce
      refine ⟨res, htr, haddress, data, holder, nonce, hdata, hholder, ?_, ?_, hn⟩
      · rwa [← Json.locate_singleton]
      · rwa [← Json.locate_singleton]

structure Exact (cfg : NetworkConfig) (perByte limit price : Json) : Prop where
  gasPerDataByte : perByte.toRat = some (cfg.gasPerDataByte.toNat : ℚ)
  minGasLimit : limit.toRat = some (cfg.minGasLimit.toNat : ℚ)
  minGasPrice : price.toRat = some (cfg.minGasPrice.toNat : ℚ)

omit [Httplib] in
theorem exact_iff {config : Json} {cfg : NetworkConfig} {perByte limit price : Json}
    (h : Configures config cfg perByte limit price) : Exact cfg perByte limit price ↔
      perByte.IsNatural 32 ∧ limit.IsNatural 32 ∧ price.IsNatural 64 := by
  rw [← Json.getUInt32_exact_iff h.gasPerDataByte, ← Json.getUInt32_exact_iff h.minGasLimit,
    ← Json.getUInt64_exact_iff h.minGasPrice]
  exact ⟨fun ⟨hgas, hlimit, hprice⟩ => ⟨hgas, hlimit, hprice⟩,
    fun ⟨hgas, hlimit, hprice⟩ => ⟨hgas, hlimit, hprice⟩⟩

/-- The gas per byte and the gas limit are kept up to 32 bits. -/
theorem getNetworkConfig_ok_iff (t : ProxyProvider) (s s' : S) (tr : Conversation)
    (cfg : NetworkConfig) :
    (t.getNetworkConfig : Program S _).Runs s tr (.ok cfg) s' ↔ s' = s ∧
      Httplib.newClient (cString t.url) = .ok () ∧ ∃ res data config perByte limit price,
        tr = [(.get (cString t.url) (ascii "/network/config"), res)] ∧
        getPayLoad (wrappedResult res) = .ok data ∧ data.find (ascii "config") = some config ∧
        Configures config cfg perByte limit price ∧ (Exact cfg perByte limit price ↔
          perByte.IsNatural 32 ∧ limit.IsNatural 32 ∧ price.IsNatural 64) := by
  have hpath : cString (ascii "/network/config") = ascii "/network/config" := by decide +kernel
  rw [getNetworkConfig, runs_request_ok_iff, hpath]
  simp only [readNetworkConfig_ok_iff]
  refine and_congr_right fun _ => and_congr_right fun _ => exists_congr fun res => ?_
  constructor
  · rintro ⟨htr, data, config, perByte, limit, price, hdata, hconfig, h⟩
    exact ⟨data, config, perByte, limit, price, htr, hdata, hconfig, h, exact_iff h⟩
  · rintro ⟨data, config, perByte, limit, price, htr, hdata, hconfig, h, -⟩
    exact ⟨htr, data, config, perByte, limit, price, hdata, hconfig, h⟩

/-- Whoever reads a posted body has the transaction that was sent. -/
theorem send_received (t : ProxyProvider) (tx : Transaction) (s s' : S)
    (tr : Conversation) (outcome : Except Exception Bytes) :
    (t.send tx : Program S _).Runs s tr outcome s' → s' = s ∧
      ((tr = [] ∧ ∃ e, outcome = .error e) ∨ ∃ message res,
        tr = [(.post (cString t.url) (ascii "/transaction/send") message contentTypeJson, res)] ∧
        outcome = readTxHash (wrappedResult res) ∧
        Transaction.deserialize .default message = (.ok (), tx) ∧
        ∀ (t' : ProxyProvider) (tx' : Transaction) (r r' : S) (tr' : Conversation)
          (outcome' : Except Exception Bytes),
          (t'.send tx' : Program S _).Runs r tr' outcome' r' →
          tr'.map Prod.fst = tr.map Prod.fst → tx' = tx) := by
  intro h
  obtain ⟨rfl, ⟨e, -, rfl, rfl⟩ | ⟨-, message, res, hmessage, rfl, rfl⟩⟩ := runs_send_iff.mp h
  · exact ⟨rfl, .inl ⟨rfl, e, rfl⟩⟩
  · refine ⟨rfl, .inr ⟨message, res, rfl, rfl, Transaction.deserialize_default hmessage, ?_⟩⟩
    intro t' tx' r r' tr' outcome' h' hrequests
    obtain ⟨rfl, ⟨e, -, rfl, rfl⟩ | ⟨-, message', res', hmessage', rfl, rfl⟩⟩ := runs_send_iff.mp h'
    · cases hrequests
    · obtain ⟨-, -, rfl, -⟩ := Request.post.inj (List.cons.inj hrequests).1
      exact Transaction.serialize_inj hmessage' hmessage

end Results

@[reducible] def openHttplib : Httplib where
  newClient _ := .ok ()
  statusMessage _ := []

theorem send_received_payment : ∃ tr outcome message res,
    (@send openHttplib Unit ⟨[]⟩ .arbitrary Transaction.payment).Runs () tr outcome () ∧
    tr = [(.post [] (ascii "/transaction/send") message contentTypeJson, res)] ∧
    @Transaction.deserialize .arbitrary .default message = (.ok (), Transaction.payment) := by
  have hruns := (@runs_send_iff openHttplib Unit () () _ ⟨[]⟩ .arbitrary Transaction.payment _).mpr
    ⟨rfl, .inr ⟨rfl, _, ⟨none, false⟩, Transaction.serialize_payment, rfl, rfl⟩⟩
  obtain ⟨-, ⟨hnil, -⟩ | ⟨message, res, htr, -, hreceived, -⟩⟩ :=
    @send_received openHttplib Unit .arbitrary ⟨[]⟩ Transaction.payment () () _ _ hruns
  · cases hnil
  · exact ⟨_, _, message, res, hruns, htr, hreceived⟩

end ProxyProvider

end MxSdk
