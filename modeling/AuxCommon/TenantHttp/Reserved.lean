import AuxCommon.TenantHttp.Ssrf
import Mathlib.Tactic.NormNum

/-!
# Reserved addresses

What `is_blocked_ip` makes of every address. An IPv6 address that carries an IPv4 address in its last
32 bits (`Embeds`) is judged by that address alone. For compatible, mapped and translated (NAT64)
addresses nothing is lost by this, since none of them is in a reserved range of its own without the
IPv4 address being reserved. An ISATAP address only has its last 64 bits laid down: the network in
front of them may be any, a reserved one included.

* `blocksReserved_iff` : reserved addresses and embeddings of reserved addresses are blocked, unless an
  ISATAP address in a reserved IPv6 range carries an IPv4 address that is not reserved.
-/

namespace AuxCommon.TenantHttp

open Option BitVec IpAddr List

/-- The address is in one of the reserved ranges. -/
def IpAddr.IsReserved (ip : IpAddr) : Prop := ∃ range ∈ reservedIpRanges, range.contains ip = true

/-- The IPv4 addresses that an IPv6 address stands for. -/
inductive Embeds : BitVec 128 → BitVec 32 → Prop
  /-- `::a.b.c.d` -/
  | compatible (ipv4 : BitVec 32) : Embeds (0#96 ++ ipv4) ipv4
  /-- `::ffff:a.b.c.d` -/
  | mapped (ipv4 : BitVec 32) : Embeds (0xffff#96 ++ ipv4) ipv4
  /-- Any network, then `0000:5efe:a.b.c.d`, where two bits of the zeroes are flags. -/
  | isatap (network : BitVec 64) (flags : BitVec 16) (ipv4 : BitVec 32)
    (hflags : flags &&& 0xfcff = 0) : Embeds (network ++ flags ++ 0x5efe#16 ++ ipv4) ipv4
  /-- `64:ff9b::a.b.c.d` -/
  | nat64 (ipv4 : BitVec 32) : Embeds (0x64ff9b0000000000000000#96 ++ ipv4) ipv4

/-! ## Addresses as numbers -/

theorem toNat_append_ipv4 (high : BitVec 96) (ipv4 : BitVec 32) :
    BitVec.toNat (w := 128) (high ++ ipv4) = high.toNat * 2 ^ 32 + ipv4.toNat := by
  rw [toNat_append, ← Nat.shiftLeft_add_eq_or_of_lt ipv4.isLt, Nat.shiftLeft_eq]

theorem toNat_lastOctets (ip : BitVec 128) : (lastOctets ip).toNat = ip.toNat % 2 ^ 32 := by
  simp [lastOctets]

theorem toNat_segment (ip : BitVec 128) (i : Nat) :
    (segment ip i).toNat = ip.toNat / 2 ^ (112 - 16 * i) % 2 ^ 16 := by
  simp [segment, Nat.shiftRight_eq_div_pow]

theorem lastOctets_append (high : BitVec 96) (ipv4 : BitVec 32) :
    lastOctets (high ++ ipv4) = ipv4 := by
  apply eq_of_toNat_eq
  have := ipv4.isLt
  rw [toNat_lastOctets, toNat_append_ipv4]
  omega

theorem toNat_isatap (network : BitVec 64) (flags : BitVec 16) :
    BitVec.toNat (w := 96) (network ++ flags ++ 0x5efe#16) =
      (network.toNat * 2 ^ 16 + flags.toNat) * 2 ^ 16 + 0x5efe := by
  rw [toNat_append, ← Nat.shiftLeft_add_eq_or_of_lt (isLt _), Nat.shiftLeft_eq,
    toNat_append, ← Nat.shiftLeft_add_eq_or_of_lt flags.isLt, Nat.shiftLeft_eq]
  rfl

variable {ip : BitVec 128} {ipv4 : BitVec 32}

/-- An address with the given number above its last four octets. -/
theorem eq_append_of_div {high : BitVec 96} (h : ip.toNat / 2 ^ 32 = high.toNat) :
    ip = high ++ lastOctets ip := by
  apply eq_of_toNat_eq
  rw [toNat_append_ipv4, toNat_lastOctets]
  omega

theorem div_append (high : BitVec 96) (ipv4 : BitVec 32) :
    BitVec.toNat (w := 128) (high ++ ipv4) / 2 ^ 32 = high.toNat := by
  have := ipv4.isLt
  rw [toNat_append_ipv4]
  omega

/-! ## The code's patterns -/

theorem toIpv4_eq_some : toIpv4 ip = some ipv4 ↔
      (ip.toNat / 2 ^ 32 = 0 ∨ ip.toNat / 2 ^ 32 = 0xffff) ∧ lastOctets ip = ipv4 := by
  have hshift : ∀ n : Nat, n < 2 ^ 128 → (ip >>> 32 = BitVec.ofNat 128 n ↔ ip.toNat / 2 ^ 32 = n) := by
    intro n hn
    rw [← BitVec.toNat_inj, BitVec.toNat_ushiftRight, BitVec.toNat_ofNat, Nat.mod_eq_of_lt hn,
      Nat.shiftRight_eq_div_pow]
  rw [toIpv4, ite_none_right_eq_some, some.injEq]
  exact and_congr_left fun _ => or_congr (hshift 0 (by decide)) (hshift 0xffff (by decide))

theorem isatapIpv4_eq_some : isatapIpv4 ip = some ipv4 ↔
      (segment ip 5 = 0x5efe ∧ segment ip 4 &&& 0xfcff = 0) ∧ lastOctets ip = ipv4 := by
  rw [isatapIpv4, ite_none_right_eq_some, some.injEq]

theorem wellKnownNat64Ipv4_eq_some : wellKnownNat64Ipv4 ip = some ipv4 ↔
      ip.toNat / 2 ^ 32 = 0x64ff9b0000000000000000 ∧ lastOctets ip = ipv4 := by
  have hsegments : (range 6).map (segment ip) = [0x64, 0xff9b, 0, 0, 0, 0] ↔
      ip.toNat / 2 ^ 32 = 0x64ff9b0000000000000000 := by
    have := ip.isLt
    have hlist : (range 6).map (segment ip) =
        [segment ip 0, segment ip 1, segment ip 2, segment ip 3, segment ip 4, segment ip 5] := rfl
    rw [hlist]
    simp only [cons.injEq, and_true, ← toNat_inj, toNat_segment]
    simp only [ofNat_eq_ofNat, toNat_ofNat]
    omega
  rw [wellKnownNat64Ipv4, ite_none_right_eq_some, some.injEq, hsegments]

/-- The three patterns of the code are the embeddings. -/
theorem embeds_iff : Embeds ip ipv4 ↔
      toIpv4 ip = some ipv4 ∨ isatapIpv4 ip = some ipv4 ∨ wellKnownNat64Ipv4 ip = some ipv4 := by
  rw [toIpv4_eq_some, isatapIpv4_eq_some, wellKnownNat64Ipv4_eq_some]
  constructor
  · intro h
    cases h with
    | compatible => exact .inl ⟨.inl (div_append _ _), lastOctets_append _ _⟩
    | mapped => exact .inl ⟨.inr (div_append _ _), lastOctets_append _ _⟩
    | nat64 => exact .inr (.inr ⟨div_append _ _, lastOctets_append _ _⟩)
    | isatap network flags ipv4 hflags =>
      have hnumber := toNat_append_ipv4 (network ++ flags ++ 0x5efe#16) ipv4
      rw [toNat_isatap] at hnumber
      have hid : segment (network ++ flags ++ 0x5efe#16 ++ ipv4) 5 = 0x5efe := by
        apply BitVec.eq_of_toNat_eq
        rw [toNat_segment, hnumber]
        change _ = 0x5efe
        omega
      have hsegment : segment (network ++ flags ++ 0x5efe#16 ++ ipv4) 4 = flags := by
        apply BitVec.eq_of_toNat_eq
        rw [toNat_segment, hnumber]
        omega
      exact .inr (.inl ⟨⟨hid, by rw [hsegment, hflags]⟩, lastOctets_append _ _⟩)
  · rintro (⟨hzero | hmapped, rfl⟩ | ⟨⟨hid, hflags⟩, rfl⟩ | ⟨hstarts, rfl⟩)
    · have := Embeds.compatible (lastOctets ip)
      rwa [← eq_append_of_div hzero] at this
    · have := Embeds.mapped (lastOctets ip)
      rwa [← eq_append_of_div hmapped] at this
    · have hhigh : ip.toNat / 2 ^ 32 =
          BitVec.toNat (w := 96) (BitVec.ofNat 64 (ip.toNat / 2 ^ 64) ++ segment ip 4 ++ 0x5efe#16) := by
        have hlt := ip.isLt
        have hid := congrArg BitVec.toNat hid
        rw [toNat_segment] at hid
        change _ = 0x5efe at hid
        rw [toNat_isatap, toNat_segment, BitVec.toNat_ofNat]
        omega
      have := Embeds.isatap (BitVec.ofNat 64 (ip.toNat / 2 ^ 64)) (segment ip 4) (lastOctets ip) hflags
      rwa [← eq_append_of_div hhigh] at this
    · have := Embeds.nat64 (lastOctets ip)
      rwa [← eq_append_of_div hstarts] at this

theorem Embeds.lastOctets_eq (h : Embeds ip ipv4) : lastOctets ip = ipv4 := by
  rcases embeds_iff.mp h with h | h | h
  · exact (toIpv4_eq_some.mp h).2
  · exact (isatapIpv4_eq_some.mp h).2
  · exact (wellKnownNat64Ipv4_eq_some.mp h).2

/-! ## An address that stands for another is judged by it -/

/-- The address that `is_blocked_ip` looks for in an IPv6 address. -/
def embedded (ip : BitVec 128) : Option (BitVec 32) :=
  ((toIpv4 ip).orElse fun _ => isatapIpv4 ip).orElse fun _ => wellKnownNat64Ipv4 ip

theorem embeds_of_embedded (h : embedded ip = some ipv4) : Embeds ip ipv4 := by
  rw [embeds_iff]
  unfold embedded at h
  cases hv4 : toIpv4 ip with
  | some found =>
    rw [hv4] at h
    exact .inl h
  | none =>
    cases hisatap : isatapIpv4 ip with
    | some found =>
      rw [hv4, hisatap] at h
      exact .inr (.inl h)
    | none =>
      rw [hv4, hisatap] at h
      exact .inr (.inr h)

/-- Whatever pattern matches first, the address is in the last four octets. -/
theorem embedded_of_embeds (h : Embeds ip ipv4) : embedded ip = some ipv4 := by
  cases hfound : embedded ip with
  | some found => rw [← (embeds_of_embedded hfound).lastOctets_eq, h.lastOctets_eq]
  | none =>
    obtain ⟨⟨hv4, hisatap⟩, hnat64⟩ : (toIpv4 ip = none ∧ isatapIpv4 ip = none) ∧
        wellKnownNat64Ipv4 ip = none := by
      simpa [embedded] using hfound
    rcases embeds_iff.mp h with h | h | h
    · rw [hv4] at h
      cases h
    · rw [hisatap] at h
      cases h
    · rw [hnat64] at h
      cases h

theorem isReservedIp_iff {ip : IpAddr} : isReservedIp ip false = true ↔ ip.IsReserved :=
  any_eq_true

theorem isBlockedIp_v6 {allowLoopbackIps : Bool}
    (h : (allowLoopbackIps && (v6 ip).isLoopback) = false) :
    isBlockedIp (.v6 ip) allowLoopbackIps =
      isReservedIp (((embedded ip).map v4).getD (.v6 ip)) allowLoopbackIps := by
  unfold isBlockedIp embedded
  rw [h, if_neg Bool.false_ne_true]
  dsimp only
  generalize ((toIpv4 ip).orElse fun _ => isatapIpv4 ip).orElse (fun _ => wellKnownNat64Ipv4 ip) = found
  cases found <;> rfl

theorem isBlockedIp_of_embeds (h : Embeds ip ipv4) :
    isBlockedIp (.v6 ip) false = true ↔ (v4 ipv4).IsReserved := by
  rw [← isReservedIp_iff, isBlockedIp_v6 rfl, embedded_of_embeds h]
  rfl

theorem isBlockedIp_of_not_embeds (h : ∀ ipv4, ¬ Embeds ip ipv4) :
    isBlockedIp (.v6 ip) false = true ↔ (v6 ip).IsReserved := by
  rw [← isReservedIp_iff, isBlockedIp_v6 rfl]
  cases hfound : embedded ip with
  | some ipv4 => exact absurd (embeds_of_embedded hfound) (h ipv4)
  | none => rfl

/-! ## Reserved IPv6 ranges and embeddings -/

theorem contains_v6 {net ip : BitVec 128} {length : Nat} :
    (IpNet.v6 net length).contains (.v6 ip) = true ↔
      net.toNat / 2 ^ (128 - length) = ip.toNat / 2 ^ (128 - length) := by
  change (net >>> (128 - length) == ip >>> (128 - length)) = true ↔ _
  rw [beq_iff_eq, ← toNat_inj, toNat_ushiftRight, toNat_ushiftRight,
    Nat.shiftRight_eq_div_pow, Nat.shiftRight_eq_div_pow]

/-- Apart from `::` and `::1`, reserved IPv6 addresses have a first segment, and are not translated
ones. -/
theorem v6_reserved_cases (h : (v6 ip).IsReserved) :
    ip.toNat ≤ 1 ∨ (2 ^ 112 ≤ ip.toNat ∧ ip.toNat / 2 ^ 32 ≠ 0x64ff9b0000000000000000) := by
  obtain ⟨range, hmem, hcontains⟩ := h
  simp only [reservedIpRanges, mem_cons, not_mem_nil, or_false] at hmem
  rcases hmem with rfl | rfl | rfl | rfl | rfl | rfl | rfl | rfl | rfl | rfl | rfl | rfl | rfl | rfl |
    rfl | rfl | rfl | rfl | rfl | rfl | rfl | rfl | rfl | rfl | rfl | rfl
  -- No IPv4 range has an IPv6 address.
  iterate 15 cases hcontains
  all_goals
    rw [net6, contains_v6, toNat_ofNat] at hcontains
    norm_num at hcontains
    omega

theorem v4_reserved_of_le_one (h : ipv4.toNat ≤ 1) : (v4 ipv4).IsReserved := by
  refine ⟨net4 0 0 0 0 8, mem_cons_self, ?_⟩
  change ((0#32) >>> 24 == ipv4 >>> 24) = true
  rw [beq_iff_eq, ← toNat_inj, toNat_ushiftRight, toNat_ushiftRight,
    Nat.shiftRight_eq_div_pow, Nat.shiftRight_eq_div_pow]
  change 0 = _
  omega

/-- Of reserved addresses only ISATAP ones can stand for an address that is not reserved. -/
theorem isatap_of_hidden (h : Embeds ip ipv4)
    (hreserved : (v6 ip).IsReserved) (hpublic : ¬ (v4 ipv4).IsReserved) :
    ∃ (network : BitVec 64) (flags : BitVec 16), flags &&& 0xfcff = 0 ∧
      ip = network ++ flags ++ 0x5efe#16 ++ ipv4 := by
  have hcases := v6_reserved_cases hreserved
  have hipv4 := ipv4.isLt
  cases h with
  | isatap network flags ipv4 hflags => exact ⟨network, flags, hflags, rfl⟩
  | compatible =>
    rw [toNat_append_ipv4] at hcases
    simp only [toNat_ofNat] at hcases
    exact absurd (v4_reserved_of_le_one (by omega)) hpublic
  | mapped =>
    rw [toNat_append_ipv4] at hcases
    simp only [toNat_ofNat] at hcases
    omega
  | nat64 =>
    rw [div_append, toNat_append_ipv4] at hcases
    simp only [toNat_ofNat] at hcases
    omega

/-! ## The filter -/

/-- What the filter should do with an address. -/
structure BlocksReserved (ip : IpAddr) : Prop where
  reserved : ip.IsReserved → isBlockedIp ip false = true
  embedding : ∀ ipv6 ipv4, ip = .v6 ipv6 → Embeds ipv6 ipv4 → (IpAddr.v4 ipv4).IsReserved →
    isBlockedIp ip false = true
  loopback : isBlockedIp ip true ≠ isBlockedIp ip false →
    ip.isLoopback = true ∨
      ∃ ipv6 ipv4, ip = .v6 ipv6 ∧ Embeds ipv6 ipv4 ∧ (IpAddr.v4 ipv4).isLoopback = true

/-- An ISATAP address in a reserved range that carries an address which is not reserved. -/
def ReservedIsatap (ip : IpAddr) : Prop :=
  ∃ (network : BitVec 64) (flags : BitVec 16) (ipv4 : BitVec 32), flags &&& 0xfcff = 0 ∧
    ip = .v6 (network ++ flags ++ 0x5efe#16 ++ ipv4) ∧ ip.IsReserved ∧ ¬ (IpAddr.v4 ipv4).IsReserved

theorem isReservedIp_loopback {ip : IpAddr} (h : isReservedIp ip true ≠ isReservedIp ip false) :
    ip.isLoopback = true := by
  by_contra hnot
  rw [Bool.not_eq_true] at hnot
  apply h
  unfold isReservedIp
  rw [hnot]
  rfl

/-- Allowing loopback changes nothing but loopback addresses and their embeddings. -/
theorem isBlockedIp_loopback {ip : IpAddr} (h : isBlockedIp ip true ≠ isBlockedIp ip false) :
    ip.isLoopback = true ∨
      ∃ ipv6 ipv4, ip = .v6 ipv6 ∧ Embeds ipv6 ipv4 ∧ (v4 ipv4).isLoopback = true := by
  by_contra hnot
  push Not at hnot
  obtain ⟨hip, hembeds⟩ := hnot
  replace hip := Bool.eq_false_of_not_eq_true hip
  apply h
  cases ip with
  | v4 ip =>
    unfold isBlockedIp
    rw [hip]
    by_contra hne
    rw [isReservedIp_loopback hne] at hip
    cases hip
  | v6 ip =>
    rw [isBlockedIp_v6 (by rw [hip]; rfl), isBlockedIp_v6 rfl]
    cases hfound : embedded ip with
    | some ipv4 =>
      by_contra hne
      exact hembeds ip ipv4 rfl (embeds_of_embedded hfound) (isReservedIp_loopback hne)
    | none =>
      by_contra hne
      have hloopback : (v6 ip).isLoopback = true := isReservedIp_loopback hne
      rw [hip] at hloopback
      cases hloopback

/-- Reserved addresses and embeddings of reserved addresses are blocked, and allowing loopback changes
nothing else, exactly for the addresses that are not ISATAP addresses in a reserved range with a public
address in them. -/
theorem blocksReserved_iff (ip : IpAddr) : BlocksReserved ip ↔ ¬ ReservedIsatap ip := by
  constructor
  · rintro h ⟨network, flags, ipv4, hflags, rfl, hreserved, hpublic⟩
    exact hpublic ((isBlockedIp_of_embeds (.isatap network flags ipv4 hflags)).mp (h.reserved hreserved))
  · intro h
    refine ⟨fun hreserved => ?_, ?_, isBlockedIp_loopback⟩
    · cases ip with
      | v4 ip => exact isReservedIp_iff.mpr hreserved
      | v6 ip =>
        by_cases hembeds : ∃ ipv4, Embeds ip ipv4
        · obtain ⟨ipv4, hembeds⟩ := hembeds
          by_contra hblocked
          have hpublic := mt (isBlockedIp_of_embeds hembeds).mpr hblocked
          obtain ⟨network, flags, hflags, rfl⟩ := isatap_of_hidden hembeds hreserved hpublic
          exact h ⟨network, flags, ipv4, hflags, rfl, hreserved, hpublic⟩
        · push Not at hembeds
          exact (isBlockedIp_of_not_embeds hembeds).mpr hreserved
    · rintro ipv6 ipv4 rfl hembeds hreserved
      exact (isBlockedIp_of_embeds hembeds).mpr hreserved

/-- The link-local ISATAP address `fe80::5efe:8.8.8.8` is in `fe80::/10` and passes. -/
theorem linkLocal_isatap_passes :
    (IpAddr.v6 0xfe8000000000000000005efe08080808).IsReserved ∧
      isBlockedIp (.v6 0xfe8000000000000000005efe08080808) false = false :=
  ⟨⟨net6 [0xfe80] 10, by simp [reservedIpRanges], by decide +kernel⟩, by decide +kernel⟩

end AuxCommon.TenantHttp
