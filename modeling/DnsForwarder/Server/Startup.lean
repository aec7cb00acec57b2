import DnsForwarder.Codec.Stream
import DnsForwarder.Tcp.Reconnect

/-!
# From the command line to the nameservers

`main` reads the options, splits the list of nameservers into words and adds one remote for each. An
option that is given twice counts the last time. A server comes about if and only if every word is
an address that can be connected to; it has the nameservers of the list then, in the order of the
list, on port 53, and one connection to each (`configured`).
-/

namespace DnsForwarder.Startup

open Tcp (Remotes TcpClient Upstream)

/-! ## The options -/

/-- What `getopt_long` returns. -/
inductive GetOpt
  /-- 0, with `option_index` and `optarg`. -/
  | long (index : ℕ) (optarg : Bytes)
  | h
  | d
  /-- `'?'`. -/
  | unknown

/-- Why `main` does not come to run the server. -/
inductive Exit
  /-- The usage has been printed. -/
  | help
  /-- `std::stoi` raises. -/
  | stoi
  /-- `invalid_argument("Invalid IPv4 address: " + host)`. -/
  | invalidIpv4 (host : Bytes)
  /-- `invalid_argument("Invalid IPv6 address: " + host)`. -/
  | invalidIpv6 (host : Bytes)
  /-- The constructor of `Server` raises. -/
  | construct
  /-- `AddRemote` raises, for one because `connect` has failed. -/
  | connect

structure Settings where
  localIp4 : Bytes
  localIp6 : Bytes
  localPort : UInt16
  nameservers : Bytes
  debug : Bool

/-- "0.0.0.0", "::1", 10053 and "114.114.114.114". -/
def Settings.default : Settings where
  localIp4 := [48, 46, 48, 46, 48, 46, 48]
  localIp6 := [58, 58, 49]
  localPort := 10053
  nameservers := [49, 49, 52, 46, 49, 49, 52, 46, 49, 49, 52, 46, 49, 49, 52]
  debug := false

/-- The loop over the options; `stoi` is that of the standard library, and its result is cut to 16
bits. -/
def options (stoi : Bytes → Option ℤ) : List GetOpt → Settings → Except Exit Settings
  | [], s => .ok s
  | .h :: _, _ => .error .help
  | .d :: args, s => options stoi args { s with debug := true }
  | .unknown :: args, s => options stoi args s
  | .long 2 optarg :: args, s => options stoi args { s with localIp4 := optarg }
  | .long 3 optarg :: args, s => options stoi args { s with localIp6 := optarg }
  | .long 4 optarg :: args, s =>
    match stoi optarg with
    | none => .error .stoi
    | some n => options stoi args { s with localPort := UInt16.ofNat (n % 65536).toNat }
  | .long 5 optarg :: args, s => options stoi args { s with nameservers := optarg }
  | .long _ _ :: args, s => options stoi args s

/-! ## The nameservers -/

/-- `isspace` in the locale "C". -/
def isSpace (b : UInt8) : Bool := b == 32 || (9 ≤ b && b ≤ 13)

def comma : UInt8 := 44

/-- `replace(nameservers.begin(), nameservers.end(), ',', ' ')`. -/
def replaceCommas (text : Bytes) : Bytes := text.map fun b => if b = comma then 32 else b

/-- What `ss >> remote_ip` extracts one after the other: what stands between white space. -/
def words (text : Bytes) : List Bytes := (text.splitOnP isSpace).filter (!·.isEmpty)

/-- `inet_pton` for the two families. -/
structure Inet where
  pton4 : Bytes → Option UInt32
  pton6 : Bytes → Option (BitVec 128)

/-- What one pass of the loop over the nameservers finds: whether the connection comes about, and
what the memory of the new object and of `remote_addr6` holds. -/
structure Env where
  connects : Bool
  memory4 : SockAddrIn
  memory6 : SockAddrIn6
  stack6 : SockAddrIn6

/-- `SockAddr4`. -/
def sockAddr4 (inet : Inet) (host : Bytes) (port : UInt16) : Except Exit SockAddrIn :=
  match inet.pton4 host with
  | none => .error (.invalidIpv4 host)
  | some ip => .ok ⟨ip, port⟩

/-- `SockAddr6`, which leaves the other fields as they are. -/
def sockAddr6 (inet : Inet) (host : Bytes) (port : UInt16) (memory : SockAddrIn6) :
    Except Exit SockAddrIn6 :=
  match inet.pton6 host with
  | none => .error (.invalidIpv6 host)
  | some ip => .ok { memory with sin6Addr := ip, sin6Port := port }

/-- `Server::AddRemote` for one family. -/
def addRemote {AddrT : Type} (s : Remotes AddrT) (addr : AddrT) (connects : Bool)
    (memory : AddrT) : Except Exit (Remotes AddrT) :=
  match TcpClient.construct addr connects memory with
  | none => .error .connect
  | some c => .ok ⟨s.remoteAddr ++ [addr], c :: s.tcpClient⟩

/-- The body of the loop over the nameservers. -/
def remote (inet : Inet) (host : Bytes) (env : Env) (s : Upstream) : Except Exit Upstream :=
  if dot ∈ host then do
    let addr ← sockAddr4 inet host 53
    let v4 ← addRemote s.v4 addr env.connects env.memory4
    return { s with v4 }
  else do
    let addr ← sockAddr6 inet host 53 env.stack6
    let v6 ← addRemote s.v6 addr env.connects env.memory6
    return { s with v6 }

def remotes (inet : Inet) : List Bytes → (ℕ → Env) → Upstream → Except Exit Upstream
  | [], _, s => .ok s
  | host :: hosts, env, s => do
    let s ← remote inet host (env 0) s
    remotes inet hosts (fun k => env (k + 1)) s

/-- `main`, up to `server.Run()`. -/
def main (stoi : Bytes → Option ℤ) (inet : Inet) (args : List GetOpt) (memory : SockAddrIn6)
    (constructs : Bool) (env : ℕ → Env) : Except Exit Upstream := do
  let s ← options stoi args .default
  let _ ← sockAddr4 inet s.localIp4 s.localPort
  let _ ← sockAddr6 inet s.localIp6 s.localPort memory
  if constructs then remotes inet (words (replaceCommas s.nameservers)) env .initial
  else .error .construct

/-! ## The last occurrence of an option counts -/

/-- The arguments of the option with this index. -/
def arguments (index : ℕ) (args : List GetOpt) : List Bytes :=
  args.filterMap fun
    | .long i optarg => if i = index then some optarg else none
    | _ => none

/-- The argument that is given last, and the default if there is none. -/
def argument (index : ℕ) (args : List GetOpt) (default : Bytes) : Bytes :=
  (arguments index args).getLastD default

theorem argument_self (index : ℕ) (optarg : Bytes) (args : List GetOpt) (default : Bytes) :
    argument index (.long index optarg :: args) default = argument index args optarg := by
  simp only [argument, arguments, List.filterMap_cons, if_true, List.getLastD_cons]

theorem argument_of_ne {i index : ℕ} (h : i ≠ index) (optarg : Bytes) (args : List GetOpt)
    (default : Bytes) :
    argument index (.long i optarg :: args) default = argument index args default := by
  simp only [argument, arguments, List.filterMap_cons, if_neg h]

/-- **An option has the value that it is given last**, and its default if it is not given. -/
theorem options_eq {stoi : Bytes → Option ℤ} {args : List GetOpt} {s s' : Settings}
    (h : options stoi args s = .ok s') :
    s'.localIp4 = argument 2 args s.localIp4 ∧ s'.localIp6 = argument 3 args s.localIp6 ∧
      s'.nameservers = argument 5 args s.nameservers := by
  fun_induction options stoi args s with
  | case1 s =>
    cases h
    exact ⟨rfl, rfl, rfl⟩
  | case2 | case7 => cases h
  | case3 args s ih | case4 args s ih => exact ih h
  | case5 optarg args s ih =>
    rw [argument_self, argument_of_ne (by decide), argument_of_ne (by decide)]
    exact ih h
  | case6 optarg args s ih =>
    rw [argument_self, argument_of_ne (by decide), argument_of_ne (by decide)]
    exact ih h
  | case8 optarg args s n hn ih =>
    rw [argument_of_ne (by decide), argument_of_ne (by decide), argument_of_ne (by decide)]
    exact ih h
  | case9 optarg args s ih =>
    rw [argument_self, argument_of_ne (by decide), argument_of_ne (by decide)]
    exact ih h
  | case10 index optarg args s h2 h3 _ h5 ih =>
    rw [argument_of_ne h2, argument_of_ne h3, argument_of_ne h5]
    exact ih h

/-- No help is asked for, and every port is a number. -/
def Readable (stoi : Bytes → Option ℤ) : GetOpt → Prop
  | .h => False
  | .long 4 optarg => stoi optarg ≠ none
  | _ => True

theorem readable_cons {stoi : Bytes → Option ℤ} {arg : GetOpt} {args : List GetOpt}
    (h : Readable stoi arg) :
    (∀ a ∈ arg :: args, Readable stoi a) ↔ ∀ a ∈ args, Readable stoi a := by
  rw [List.forall_mem_cons, and_iff_right h]

theorem options_ok_iff {stoi : Bytes → Option ℤ} {args : List GetOpt} {s : Settings} :
    (∃ s', options stoi args s = .ok s') ↔ ∀ arg ∈ args, Readable stoi arg := by
  fun_induction options stoi args s with
  | case1 s => exact iff_of_true ⟨s, rfl⟩ nofun
  | case2 args s => exact iff_of_false nofun fun h => h .h List.mem_cons_self
  | case7 optarg args s hn =>
    exact iff_of_false nofun fun h => h (.long 4 optarg) List.mem_cons_self hn
  | case8 optarg args s n hn ih =>
    have harg : Readable stoi (.long 4 optarg) := by
      rw [Readable, hn]
      nofun
    exact ih.trans (readable_cons harg).symm
  | case3 args s ih => exact ih.trans (@readable_cons stoi .d args trivial).symm
  | case4 args s ih => exact ih.trans (@readable_cons stoi .unknown args trivial).symm
  | case5 optarg args s ih =>
    exact ih.trans (@readable_cons stoi (.long 2 optarg) args trivial).symm
  | case6 optarg args s ih =>
    exact ih.trans (@readable_cons stoi (.long 3 optarg) args trivial).symm
  | case9 optarg args s ih =>
    exact ih.trans (@readable_cons stoi (.long 5 optarg) args trivial).symm
  | case10 index optarg args s h2 h3 h4 h5 ih =>
    have harg : Readable stoi (.long index optarg) := by
      unfold Readable
      split
      · rename_i h
        cases h
      · rename_i h
        cases h
        exact absurd rfl h4
      · trivial
    exact ih.trans (readable_cons harg).symm

/-! ## The words of a list -/

/-- A host as it stands in a list: not empty, with no comma and no white space. -/
def IsHost (host : Bytes) : Prop := host ≠ [] ∧ ∀ b ∈ host, b ≠ comma ∧ isSpace b = false

theorem replaceCommas_host {host : Bytes} (h : IsHost host) : replaceCommas host = host := by
  refine (List.map_congr_left fun b hb => ?_).trans (List.map_id host)
  exact if_neg (h.2 b hb).1

theorem replaceCommas_append (u v : Bytes) :
    replaceCommas (u ++ v) = replaceCommas u ++ replaceCommas v := List.map_append

/-- A word, white space and what follows. -/
theorem words_cons {host : Bytes} (h : IsHost host) (rest : Bytes) :
    words (host ++ 32 :: rest) = host :: words rest := by
  have hspace : ∀ b ∈ host, isSpace b = false := fun b hb => (h.2 b hb).2
  unfold words
  rw [List.splitOnP_append_cons_of_forall_mem hspace 32 rfl, List.filter_cons_of_pos]
  simpa using h.1

theorem words_host {host : Bytes} (h : IsHost host) : words host = [host] := by
  have hspace : ∀ b ∈ host, isSpace b = false := fun b hb => (h.2 b hb).2
  unfold words
  rw [List.splitOnP_eq_singleton hspace, List.filter_cons_of_pos]
  · rfl
  · simpa using h.1

/-- **A list of hosts separated by commas is split into the hosts.** -/
theorem words_intercalate {hosts : List Bytes} (h : ∀ host ∈ hosts, IsHost host) :
    words (replaceCommas ([comma].intercalate hosts)) = hosts := by
  induction hosts with
  | nil => rfl
  | cons host hosts ih =>
    obtain ⟨hhost, hhosts⟩ := List.forall_mem_cons.1 h
    cases hosts with
    | nil =>
      rw [List.intercalate_singleton, replaceCommas_host hhost]
      exact words_host hhost
    | cons host' hosts =>
      have hrest : replaceCommas ([comma] ++ [comma].intercalate (host' :: hosts)) =
          32 :: replaceCommas ([comma].intercalate (host' :: hosts)) := rfl
      rw [List.intercalate_cons_cons, List.append_assoc, replaceCommas_append,
        replaceCommas_host hhost, hrest, words_cons hhost, ih hhosts]

/-! ## The remotes -/

section Remotes

variable {inet : Inet} {env : ℕ → Env} {hosts : List Bytes} {s s' : Upstream}

/-- The text is an address of its family, which is IPv4 if there is a dot in it. -/
def Inet.Valid (inet : Inet) (host : Bytes) : Prop :=
  if dot ∈ host then inet.pton4 host ≠ none else inet.pton6 host ≠ none

/-- The IPv4 addresses among the hosts. -/
def Inet.addrs4 (inet : Inet) (hosts : List Bytes) : List UInt32 :=
  hosts.filterMap fun host => if dot ∈ host then inet.pton4 host else none

def Inet.addrs6 (inet : Inet) (hosts : List Bytes) : List (BitVec 128) :=
  hosts.filterMap fun host => if dot ∈ host then none else inet.pton6 host

/-- What one pass of the loop does. -/
theorem remote_eq_ok_iff {host : Bytes} {env : Env} :
    remote inet host env s = .ok s' ↔ env.connects = true ∧
      ((dot ∈ host ∧ ∃ ip, inet.pton4 host = some ip ∧ s' = { s with
          v4 := ⟨s.v4.remoteAddr ++ [⟨ip, 53⟩], ⟨⟨ip, 53⟩, env.memory4⟩ :: s.v4.tcpClient⟩ }) ∨
        (dot ∉ host ∧ ∃ ip, inet.pton6 host = some ip ∧ s' = { s with
          v6 := ⟨s.v6.remoteAddr ++ [{ env.stack6 with sin6Addr := ip, sin6Port := 53 }],
            ⟨{ env.stack6 with sin6Addr := ip, sin6Port := 53 }, env.memory6⟩ ::
              s.v6.tcpClient⟩ })) := by
  unfold remote sockAddr4 sockAddr6 addRemote TcpClient.construct
  by_cases hdot : dot ∈ host
  · cases hip : inet.pton4 host <;> cases hc : env.connects <;>
      simp [hdot, bind, Except.bind, pure, Except.pure, eq_comm]
  · cases hip : inet.pton6 host <;> cases hc : env.connects <;>
      simp [hdot, bind, Except.bind, pure, Except.pure, eq_comm]

theorem remote_ok_iff {host : Bytes} {env : Env} :
    (∃ s', remote inet host env s = .ok s') ↔ env.connects = true ∧ inet.Valid host := by
  simp only [remote_eq_ok_iff, exists_and_left, Inet.Valid]
  refine and_congr_right fun _ => ?_
  by_cases hdot : dot ∈ host
  · simp [hdot, Option.ne_none_iff_exists', exists_comm]
  · simp [hdot, Option.ne_none_iff_exists', exists_comm]

/-- The address and the port of an IPv6 address. -/
def addrPort (a : SockAddrIn6) : BitVec 128 × UInt16 := (a.sin6Addr, a.sin6Port)

/-- What has become of the server when the hosts have been added. -/
structure Added (inet : Inet) (hosts : List Bytes) (s s' : Upstream) : Prop where
  v4 : s'.v4.remoteAddr = s.v4.remoteAddr ++ (inet.addrs4 hosts).map (⟨·, 53⟩)
  v6 : s'.v6.remoteAddr.map addrPort =
    s.v6.remoteAddr.map addrPort ++ (inet.addrs6 hosts).map (·, 53)
  connected : s.Connected → s'.Connected

theorem added_of_remote {host : Bytes} {env : Env} (h : remote inet host env s = .ok s') :
    Added inet [host] s s' := by
  obtain ⟨-, ⟨hdot, ip, hip, rfl⟩ | ⟨hdot, ip, hip, rfl⟩⟩ := remote_eq_ok_iff.1 h
  · refine ⟨?_, ?_, fun hs => ⟨?_, hs.2⟩⟩
    · simp [Inet.addrs4, hdot, hip]
    · simp [Inet.addrs6, hdot]
    · have hnew : TcpClient.construct ⟨ip, 53⟩ true env.memory4 = some ⟨⟨ip, 53⟩, env.memory4⟩ :=
        rfl
      exact hs.1.step (.addRemote hnew)
  · refine ⟨?_, ?_, fun hs => ⟨hs.1, ?_⟩⟩
    · simp [Inet.addrs4, hdot]
    · simp [Inet.addrs6, hdot, hip, addrPort]
    · exact hs.2.step (@Remotes.Step.addRemote _ _ _ _ env.memory6 _ rfl)

theorem Added.trans {hosts' : List Bytes} {s'' : Upstream} (h : Added inet hosts s s')
    (h' : Added inet hosts' s' s'') : Added inet (hosts ++ hosts') s s'' where
  v4 := by rw [h'.v4, h.v4, Inet.addrs4, Inet.addrs4, Inet.addrs4, List.filterMap_append,
    List.map_append, List.append_assoc]
  v6 := by rw [h'.v6, h.v6, Inet.addrs6, Inet.addrs6, Inet.addrs6, List.filterMap_append,
    List.map_append, List.append_assoc]
  connected hs := h'.connected (h.connected hs)

theorem added_of_remotes (h : remotes inet hosts env s = .ok s') : Added inet hosts s s' := by
  induction hosts generalizing env s with
  | nil =>
    cases h
    exact ⟨(List.append_nil _).symm, (List.append_nil _).symm, id⟩
  | cons host hosts ih =>
    rw [remotes] at h
    cases hr : remote inet host (env 0) s with
    | error e =>
      rw [hr] at h
      cases h
    | ok s₁ =>
      rw [hr] at h
      exact (added_of_remote hr).trans (ih h)

theorem remotes_ok_iff : (∃ s', remotes inet hosts env s = .ok s') ↔
    (∀ host ∈ hosts, inet.Valid host) ∧ ∀ k < hosts.length, (env k).connects = true := by
  induction hosts generalizing env s with
  | nil => exact iff_of_true ⟨s, rfl⟩ ⟨nofun, nofun⟩
  | cons host hosts ih =>
    rw [remotes, List.forall_mem_cons, List.length_cons, Nat.forall_lt_succ_left]
    cases hr : remote inet host (env 0) s with
    | error e =>
      have hnot : ¬ ((env 0).connects = true ∧ inet.Valid host) := by
        rw [← remote_ok_iff (s := s), hr]
        nofun
      refine iff_of_false nofun fun h => hnot ⟨h.2.1, h.1.1⟩
    | ok s₁ =>
      obtain ⟨hconnects, hvalid⟩ := remote_ok_iff.1 ⟨s₁, hr⟩
      refine (@ih (fun k => env (k + 1)) s₁).trans ?_
      rw [and_iff_right hvalid, and_iff_right hconnects]

end Remotes

/-! ## The whole of `main` -/

section Main

variable {stoi : Bytes → Option ℤ} {inet : Inet} {args : List GetOpt} {memory : SockAddrIn6}
  {constructs : Bool} {env : ℕ → Env} {hosts : List Bytes} {server : Upstream}

/-- `main` up to the nameservers. -/
theorem main_eq_ok_iff : main stoi inet args memory constructs env = .ok server ↔
    ∃ s, options stoi args .default = .ok s ∧ inet.pton4 s.localIp4 ≠ none ∧
      inet.pton6 s.localIp6 ≠ none ∧ constructs = true ∧
      remotes inet (words (replaceCommas s.nameservers)) env .initial = .ok server := by
  unfold main
  cases hoptions : options stoi args .default with
  | error e => simp [bind, Except.bind]
  | ok s =>
    unfold sockAddr4 sockAddr6
    cases h4 : inet.pton4 s.localIp4 <;> cases h6 : inet.pton6 s.localIp6 <;>
      cases constructs <;> simp [bind, Except.bind, h4, h6]

/-- **The nameservers of the command line.** If the last list of nameservers that is given is one of
hosts separated by commas, then `main` comes to run the server if and only if it is not asked for
help, every port is a number, both local addresses can be read, the server can be constructed, and
every host is an address that can be connected to. The server has the hosts as its remotes then,
those of each family in the order of the list and on port 53, and one connection to each. -/
theorem configured (hhosts : ∀ host ∈ hosts, IsHost host)
    (hargs : argument 5 args Settings.default.nameservers = [comma].intercalate hosts) :
    ((∃ server, main stoi inet args memory constructs env = .ok server) ↔
      (∀ arg ∈ args, Readable stoi arg) ∧
      inet.pton4 (argument 2 args Settings.default.localIp4) ≠ none ∧
      inet.pton6 (argument 3 args Settings.default.localIp6) ≠ none ∧ constructs = true ∧
      (∀ host ∈ hosts, inet.Valid host) ∧ ∀ k < hosts.length, (env k).connects = true) ∧
    ∀ server, main stoi inet args memory constructs env = .ok server →
      server.v4.remoteAddr = (inet.addrs4 hosts).map (⟨·, 53⟩) ∧
      server.v6.remoteAddr.map addrPort = (inet.addrs6 hosts).map (·, 53) ∧
      server.Connected := by
  have hwords : ∀ s, options stoi args .default = .ok s →
      words (replaceCommas s.nameservers) = hosts := by
    intro s hs
    rw [(options_eq hs).2.2, hargs, words_intercalate hhosts]
  constructor
  · simp only [main_eq_ok_iff, ← options_ok_iff (s := .default)]
    constructor
    · rintro ⟨server, s, hs, h4, h6, hconstructs, hremotes⟩
      rw [hwords s hs] at hremotes
      rw [(options_eq hs).1] at h4
      rw [(options_eq hs).2.1] at h6
      exact ⟨⟨s, hs⟩, h4, h6, hconstructs, remotes_ok_iff.1 ⟨server, hremotes⟩⟩
    · rintro ⟨⟨s, hs⟩, h4, h6, hconstructs, hremotes⟩
      obtain ⟨server, hserver⟩ := remotes_ok_iff.2 hremotes
      rw [← (options_eq hs).1] at h4
      rw [← (options_eq hs).2.1] at h6
      exact ⟨server, s, hs, h4, h6, hconstructs, (hwords s hs).symm ▸ hserver⟩
  · intro server hserver
    obtain ⟨s, hs, -, -, -, hremotes⟩ := main_eq_ok_iff.1 hserver
    rw [hwords s hs] at hremotes
    obtain ⟨hv4, hv6, hconnected⟩ := added_of_remotes hremotes
    exact ⟨hv4, hv6, hconnected ⟨.refl _, .refl _⟩⟩

end Main

/-- "8.8.8.8" and "::1". -/
def host4 : Bytes := [56, 46, 56, 46, 56, 46, 56]
def host6 : Bytes := [58, 58, 49]

/-- The texts of three addresses: "0.0.0.0", "8.8.8.8" and "::1". -/
def texts : Inet where
  pton4 host :=
    if host = Settings.default.localIp4 then some 0
    else if host = host4 then some 0x08080808
    else none
  pton6 host := if host = host6 then some 1 else none

/-- Two lists of nameservers, the second of which has one of each family. -/
theorem configured_host : ∃ server,
    main (fun _ => none) texts [.long 5 host6, .long 5 (host4 ++ comma :: host6)] ⟨0, 0, 0, 0⟩ true
      (fun _ => ⟨true, ⟨0, 0⟩, ⟨0, 0, 0, 0⟩, ⟨0, 0, 0, 0⟩⟩) = .ok server ∧
    server.v4.remoteAddr = [⟨0x08080808, 53⟩] ∧
    server.v6.remoteAddr.map addrPort = [(1, 53)] ∧ server.Connected := by
  have hhosts : ∀ host ∈ [host4, host6], IsHost host := by
    simp [IsHost, host4, host6, comma, isSpace]
  obtain ⟨hiff, hserver⟩ := @configured (fun _ => none) texts
    [.long 5 host6, .long 5 (host4 ++ comma :: host6)] ⟨0, 0, 0, 0⟩ true
    (fun _ => ⟨true, ⟨0, 0⟩, ⟨0, 0, 0, 0⟩, ⟨0, 0, 0, 0⟩⟩) [host4, host6] hhosts rfl
  obtain ⟨server, h⟩ := hiff.2 (by
    refine ⟨?_, by decide, by decide, rfl, ?_, fun _ _ => rfl⟩
    · simp [Readable]
    · simp [Inet.Valid, texts, host4, host6, dot, Settings.default])
  obtain ⟨hv4, hv6, hconnected⟩ := hserver server h
  exact ⟨server, h, hv4, hv6, hconnected⟩

end DnsForwarder.Startup
