import Mathlib.Data.List.Basic
import MyCursor.Networks

/-!
# Web fetch

`search/fetch.rs`: a page is requested hop by hop. Before each request the url is checked
and all addresses of its host are looked up and tested; the client does not follow
redirects by itself.
-/
namespace MyCursor.WebFetch
open Networks

abbrev Ipv4Addr : Type := BitVec 32
abbrev Ipv6Addr : Type := BitVec 128
def Ipv4Addr.new (a b c d : BitVec 8) : Ipv4Addr := a ++ b ++ c ++ d
def Ipv6Addr.new (a b c d e f g h : BitVec 16) : Ipv6Addr := a ++ b ++ c ++ d ++ e ++ f ++ g ++ h
def Ipv6Addr.segment (ip : Ipv6Addr) (index : Nat) : BitVec 16 := ip.extractLsb' (112 - 16 * index) 16
inductive IpAddr where
  | V4 (ip : Ipv4Addr)
  | V6 (ip : Ipv6Addr)
deriving DecidableEq

def reserved : List (BitVec 32 × Nat) :=
  [(0x00000000,8),(0x0a000000,8),(0x64400000,10),(0x7f000000,8),(0xa9fe0000,16),(0xac100000,12),(0xc0000000,24),(0xc0000200,24),
    (0xc0a80000,16),(0xc6120000,15),(0xc6336400,24),(0xcb007100,24),(0xe0000000,3)]
def public_v4 (ip : Ipv4Addr) : Bool :=
  !reserved.any fun network => ip >>> (32 - network.2) == network.1 >>> (32 - network.2)
def public_v6 (ip : Ipv6Addr) : Bool :=
  ip.segment 0 &&& 0xe000 == 0x2000 && !(ip.segment 0 == 0x2001 && ip.segment 1 == 0x0db8)
def is_public : IpAddr → Bool
  | .V4 ip => public_v4 ip
  | .V6 ip => public_v6 ip
def is_benchmark_proxy_range : IpAddr → Bool
  | .V6 _ => false
  | .V4 ip => ip >>> 17 == Ipv4Addr.new 198 18 0 0 >>> 17
def safe_resolution (ip : IpAddr) (domain : Bool) : Bool := is_public ip || (domain && is_benchmark_proxy_range ip)

inductive HostKind where
  | Domain
  | Ipv4
  | Ipv6
deriving DecidableEq
/-- What `url::Url` tells of a url. -/
structure Url where
  text : String
  scheme : String
  username : String
  password : Option String
  host : Option (HostKind × String)
  port_or_known_default : Option Nat
deriving DecidableEq
structure Response where
  status : Nat
  location : Option String
  body : String
deriving DecidableEq
structure FetchedPage where
  url : String
  markdown : String
deriving DecidableEq
/-- The `url` and `http` crates, and what the network answers at each hop. -/
structure Internet where
  parse : String → Except String Url
  join : Url → String → Except String String
  lookup_host : Nat → String → Nat → Except String (List IpAddr)
  client : Nat → Except String Unit
  send : Nat → Url → List IpAddr → Except String Response
  page : Url → Response → Except String FetchedPage
  canonical_reason : Nat → Option String

def parse_url (net : Internet) (value : String) : Except String Url :=
  match net.parse value with
  | .error error => .error s!"invalid URL: {error}"
  | .ok url =>
    if url.scheme ≠ "http" ∧ url.scheme ≠ "https" then .error "URL must use http or https"
    else if url.username ≠ "" ∨ url.password.isSome then .error "URL credentials are not allowed"
    else if url.host.isNone then .error "URL is missing a host"
    else .ok url

/-- A request that was sent, with the addresses that were checked for it. -/
structure Request where
  url : Url
  addresses : List IpAddr
deriving DecidableEq
def Url.domain (url : Url) : Bool := url.host.any (·.1 = .Domain)

def request (net : Internet) (hop : Nat) (url : Url) : Except String Response × List Request :=
  match url.host,url.port_or_known_default with
  | none,_ => (.error "URL is missing a host",[])
  | some _,none => (.error "URL has no usable port",[])
  | some (_,host),some port =>
    match net.lookup_host hop host port with
    | .error error => (.error s!"DNS lookup failed: {error}",[])
    | .ok addresses =>
      if addresses.isEmpty then (.error "DNS lookup returned no addresses",[])
      else if addresses.any (fun address => !safe_resolution address url.domain) then
        (.error "URL resolves to a non-public address",[])
      else match net.client hop with
        | .error error => (.error s!"HTTP client failed: {error}",[])
        | .ok () => ((net.send hop url addresses).mapError fun error => s!"request failed: {error}",[⟨url,addresses⟩])

def MAX_REDIRECTS : Nat := 5

/-- What follows an answer: the page, a failure, or the next url. -/
def redirected (net : Internet) (url : Url) (response : Response) : Except String Url :=
  match response.location with
  | none => .error "redirect is missing Location"
  | some location =>
    match net.join url location with
    | .error error => .error s!"invalid redirect: {error}"
    | .ok next => parse_url net next
def fetchFrom (net : Internet) (left : Nat) (url : Url) : Except String FetchedPage × List Request :=
  match request net (MAX_REDIRECTS - left) url with
  | (.error error,sent) => (.error error,sent)
  | (.ok response,sent) =>
    if 300 ≤ response.status ∧ response.status < 400 then
      match left with
      | 0 => (.error "too many redirects",sent)
      | left + 1 =>
        match redirected net url response with
        | .error error => (.error error,sent)
        | .ok next =>
          let (result,more) := fetchFrom net left next
          (result,sent ++ more)
    else if ¬ (200 ≤ response.status ∧ response.status < 300) then
      let reason := (net.canonical_reason response.status).getD "<unknown status code>"
      (.error s!"HTTP {response.status} {reason}",sent)
    else (net.page url response,sent)
def fetch_inner (net : Internet) (value : String) : Except String FetchedPage × List Request :=
  match parse_url net value with
  | .error error => (.error error,[])
  | .ok url => fetchFrom net MAX_REDIRECTS url

def special : List (Ipv4Addr × Nat) :=
  [(.new 0 0 0 0,8),(.new 10 0 0 0,8),(.new 100 64 0 0,10),(.new 127 0 0 0,8),(.new 169 254 0 0,16),(.new 172 16 0 0,12),
    (.new 192 0 0 0,24),(.new 192 0 2 0,24),(.new 192 168 0 0,16),(.new 198 18 0 0,15),(.new 198 51 100 0,24),
    (.new 203 0 113 0,24),(.new 224 0 0 0,3)]
def PublicV4 (ip : Ipv4Addr) : Prop := ∀ network ∈ special, ¬ InNetwork network.1 network.2 ip

def SixToFour (ip : Ipv6Addr) : Prop := InNetwork (Ipv6Addr.new 0x2002 0 0 0 0 0 0 0) 16 ip
def Teredo (ip : Ipv6Addr) : Prop := InNetwork (Ipv6Addr.new 0x2001 0 0 0 0 0 0 0) 32 ip
def Mapped (ip : Ipv6Addr) : Prop := InNetwork (Ipv6Addr.new 0 0 0 0 0 0xffff 0 0) 96 ip
def Nat64 (ip : Ipv6Addr) : Prop := InNetwork (Ipv6Addr.new 0x64 0xff9b 0 0 0 0 0 0) 96 ip
instance : DecidablePred SixToFour := fun _ => inferInstanceAs (Decidable (InNetwork _ _ _))
instance : DecidablePred Teredo := fun _ => inferInstanceAs (Decidable (InNetwork _ _ _))
instance : DecidablePred Mapped := fun _ => inferInstanceAs (Decidable (InNetwork _ _ _))
instance : DecidablePred Nat64 := fun _ => inferInstanceAs (Decidable (InNetwork _ _ _))
/-- The IPv4 addresses in an IPv6 address; Teredo has the server and, inverted, the client. -/
def embedded (ip : Ipv6Addr) : List Ipv4Addr :=
  if Mapped ip ∨ Nat64 ip then [ip.extractLsb' 0 32]
  else if SixToFour ip then [ip.extractLsb' 80 32]
  else if Teredo ip then [ip.extractLsb' 64 32,~~~(ip.extractLsb' 0 32)]
  else []
/-- Global unicast but for documentation, and public in what is embedded. -/
structure PublicV6 (ip : Ipv6Addr) : Prop where
  global : InNetwork (Ipv6Addr.new 0x2000 0 0 0 0 0 0 0) 3 ip
  documented : ¬ InNetwork (Ipv6Addr.new 0x2001 0x0db8 0 0 0 0 0 0) 32 ip
  embedded : ∀ inner ∈ embedded ip, PublicV4 inner
def Public : IpAddr → Prop
  | .V4 ip => PublicV4 ip
  | .V6 ip => PublicV6 ip
def Benchmark : IpAddr → Prop
  | .V4 ip => InNetwork (Ipv4Addr.new 198 18 0 0) 15 ip
  | .V6 _ => False
/-- A 6to4 or Teredo address of a host that is not public. -/
def Tunnels : IpAddr → Prop
  | .V4 _ => False
  | .V6 ip => (SixToFour ip ∨ Teredo ip) ∧ ∃ inner ∈ embedded ip, ¬ PublicV4 inner

section Addresses
variable {ip : Ipv6Addr}

theorem public_v4_iff (ip : Ipv4Addr) : public_v4 ip = true ↔ PublicV4 ip := by
  have sameNetworks : reserved = special := by decide
  have within : ∀ network ∈ special,
      (ip >>> (32 - network.2) == network.1 >>> (32 - network.2)) = true ↔ InNetwork network.1 network.2 ip := by
    intro network member
    have short : ∀ network ∈ special, network.2 ≤ 32 := by decide
    rw [beq_iff_eq,ushiftRight_eq_iff (short network member)]
  unfold public_v4 PublicV4
  rw [sameNetworks,Bool.not_eq_true',List.any_eq_false]
  exact forall₂_congr fun network member => not_congr (within network member)
theorem benchmark_iff (address : IpAddr) : is_benchmark_proxy_range address = true ↔ Benchmark address := by
  cases address with
  | V4 ip =>
    have shifted : ip >>> (32 - 15) = Ipv4Addr.new 198 18 0 0 >>> (32 - 15) ↔ InNetwork (Ipv4Addr.new 198 18 0 0) 15 ip :=
      ushiftRight_eq_iff (by decide)
    simpa [is_benchmark_proxy_range,Benchmark] using shifted
  | V6 ip => simp [is_benchmark_proxy_range,Benchmark]

theorem segment_bit {index i : Nat} (small : index ≤ 7) (inside : i < 16) :
    (ip.segment index).getMsbD i = ip.getMsbD (16 * index + i) := by
  have low : 112 - 16 * index + 16 - i ≤ 128 := by omega
  have place : 128 - (112 - 16 * index + 16 - i) = 16 * index + i := by omega
  simp [Ipv6Addr.segment,inside,low,place]
theorem segment_network {network : Ipv6Addr} {length : Nat} (short : length ≤ 16) :
    InNetwork (network.segment 0) length (ip.segment 0) ↔ InNetwork network length ip := by
  refine forall₂_congr fun i inside => ?_
  rw [segment_bit (by decide) (by omega),segment_bit (by decide) (by omega),Nat.mul_zero,Nat.zero_add]
theorem segment_network' {network : Ipv6Addr} :
    InNetwork (network.segment 1) 16 (ip.segment 1) ↔ ∀ i < 16, ip.getMsbD (16 + i) = network.getMsbD (16 + i) := by
  refine forall₂_congr fun i inside => ?_
  rw [segment_bit (by decide) inside,segment_bit (by decide) inside,Nat.mul_one]
theorem global_iff : ip.segment 0 &&& 0xe000 = 0x2000 ↔ InNetwork (Ipv6Addr.new 0x2000 0 0 0 0 0 0 0) 3 ip := by
  have isSegment : (Ipv6Addr.new 0x2000 0 0 0 0 0 0 0).segment 0 = 0x2000 := by decide
  rw [and_mask_iff (show 3 ≤ 16 by decide) (by decide) (by decide),← segment_network (by decide),isSegment]
theorem documented_iff : ip.segment 0 = 0x2001 ∧ ip.segment 1 = 0x0db8 ↔ InNetwork (Ipv6Addr.new 0x2001 0x0db8 0 0 0 0 0 0) 32 ip := by
  obtain ⟨network,isNetwork⟩ : ∃ network, Ipv6Addr.new 0x2001 0x0db8 0 0 0 0 0 0 = network := ⟨_,rfl⟩
  have first : network.segment 0 = 0x2001 := by rw [← isNetwork]; decide
  have second : network.segment 1 = 0x0db8 := by rw [← isNetwork]; decide
  rw [isNetwork,← first,← second,eq_iff,eq_iff,segment_network (Nat.le_refl 16),segment_network']
  exact (inNetwork_split 16 16).symm
theorem public_v6_iff : public_v6 ip = true ↔ InNetwork (Ipv6Addr.new 0x2000 0 0 0 0 0 0 0) 3 ip ∧
    ¬ InNetwork (Ipv6Addr.new 0x2001 0x0db8 0 0 0 0 0 0) 32 ip := by
  rw [← global_iff,← documented_iff]
  simp only [public_v6,Bool.and_eq_true,Bool.not_eq_true',beq_iff_eq,Bool.and_eq_false_iff,beq_eq_false_iff_ne,not_and_or]

theorem safe_resolution_iff {address : IpAddr} {domain : Bool} (safe : safe_resolution address domain = true) :
    (Public address ∨ (domain = true ∧ Benchmark address)) ↔ ¬ Tunnels address := by
  rw [safe_resolution,Bool.or_eq_true,Bool.and_eq_true,benchmark_iff] at safe
  cases address with
  | V4 ip => simpa [is_public,Public,Tunnels,public_v4_iff] using safe
  | V6 ip =>
    simp only [is_public,public_v6_iff,Benchmark,and_false,or_false] at safe
    obtain ⟨global,documented⟩ := safe
    simp only [Public,Benchmark,and_false,or_false,Tunnels,not_and,not_exists,not_not]
    constructor
    · exact fun isPublic _ inner member => isPublic.embedded inner member
    · refine fun inside => ⟨global,documented,fun inner member => ?_⟩
      by_cases tunnel : SixToFour ip ∨ Teredo ip
      · exact inside tunnel inner member
      -- what is mapped or translated is not global unicast
      · obtain ⟨noSix,noTeredo⟩ := not_or.mp tunnel
        have notMapped : ¬ (Mapped ip ∨ Nat64 ip) := by
          rintro (mapped | translated)
          · exact disjoint global mapped (i := 2) (by decide) (by decide) (by decide)
          · exact disjoint global translated (i := 2) (by decide) (by decide) (by decide)
        simp [embedded,notMapped,noSix,noTeredo] at member

end Addresses

/-- Where a request goes is public, or of the benchmark range for a name. -/
def StaysPublic (request : Request) : Prop :=
  ∀ address ∈ request.addresses, Public address ∨ (request.url.domain = true ∧ Benchmark address)
/-- The url of a request, and the answer to the lookup of its host. -/
structure Checked (net : Internet) (hop : Nat) (request : Request) : Prop where
  scheme : request.url.scheme = "http" ∨ request.url.scheme = "https"
  username : request.url.username = ""
  password : request.url.password = none
  looked_up : ∃ kind host port, request.url.host = some (kind,host) ∧ request.url.port_or_known_default = some port ∧
    net.lookup_host hop host port = .ok request.addresses
  safe : ∀ address ∈ request.addresses, safe_resolution address request.url.domain = true

section Requests
variable {net : Internet} {value : String} {url : Url} {hop : Nat} {one : Request}

/-- What `parse_url` lets through. -/
structure Allowed (url : Url) : Prop where
  scheme : url.scheme = "http" ∨ url.scheme = "https"
  username : url.username = ""
  password : url.password = none

theorem parse_url_allowed (parsed : parse_url net value = .ok url) : Allowed url := by
  unfold parse_url at parsed
  cases isParsed : net.parse value with
  | error e => simp [isParsed] at parsed
  | ok found =>
    simp only [isParsed] at parsed
    split_ifs at parsed with scheme credentials host
    obtain rfl := Except.ok.inj parsed
    simp only [not_or,Bool.not_eq_true,Option.isSome_eq_false_iff,Option.isNone_iff_eq_none] at credentials
    refine ⟨?_,not_not.mp credentials.1,credentials.2⟩
    by_contra other
    exact scheme (not_or.mp other)

theorem request_checked (allowed : Allowed url) (sent : one ∈ (request net hop url).2) : Checked net hop one := by
  unfold request at sent
  cases isHost : url.host with
  | none => simp [isHost] at sent
  | some found =>
    obtain ⟨kind,host⟩ := found
    cases isPort : url.port_or_known_default with
    | none => simp [isHost,isPort] at sent
    | some port =>
      simp only [isHost,isPort] at sent
      cases answer : net.lookup_host hop host port with
      | error e => simp [answer] at sent
      | ok addresses =>
        simp only [answer] at sent
        split_ifs at sent with none_ unsafe_
        · cases sent
        · cases sent
        · cases isClient : net.client hop with
          | error e => simp [isClient] at sent
          | ok _ =>
            simp only [isClient] at sent
            obtain rfl := List.mem_singleton.mp sent
            refine ⟨allowed.scheme,allowed.username,allowed.password,⟨kind,host,port,isHost,isPort,answer⟩,?_⟩
            simpa using unsafe_
theorem request_once (net : Internet) (hop : Nat) (url : Url) : (request net hop url).2.length ≤ 1 := by
  unfold request
  repeat' split
  all_goals simp

theorem fetchFrom_checked (left : Nat) : ∀ {url : Url}, Allowed url → (fetchFrom net left url).2.length ≤ left + 1 ∧
    ∀ one ∈ (fetchFrom net left url).2, ∃ hop, Checked net hop one := by
  induction left with
  | zero =>
    intro url allowed
    have first : ∀ one ∈ (request net (MAX_REDIRECTS - 0) url).2, ∃ hop, Checked net hop one :=
      fun one sent => ⟨_,request_checked allowed sent⟩
    have once := request_once net (MAX_REDIRECTS - 0) url
    unfold fetchFrom
    cases answer : request net (MAX_REDIRECTS - 0) url with
    | mk result sent =>
      rw [answer] at first once
      cases result with
      | error e => exact ⟨once,first⟩
      | ok response =>
        dsimp only
        split_ifs
        · exact ⟨once,first⟩
        · exact ⟨once,first⟩
        · exact ⟨once,first⟩
  | succ left ih =>
    intro url allowed
    have first : ∀ one ∈ (request net (MAX_REDIRECTS - (left + 1)) url).2, ∃ hop, Checked net hop one :=
      fun one sent => ⟨_,request_checked allowed sent⟩
    have once := request_once net (MAX_REDIRECTS - (left + 1)) url
    unfold fetchFrom
    cases answer : request net (MAX_REDIRECTS - (left + 1)) url with
    | mk result sent =>
      rw [answer] at first once
      have enough : sent.length ≤ left + 1 + 1 := Nat.le_trans once (by omega)
      cases result with
      | error e => exact ⟨enough,first⟩
      | ok response =>
        dsimp only
        split_ifs
        · cases isNext : redirected net url response with
          | error e => exact ⟨enough,first⟩
          | ok next =>
            have allowedNext : Allowed next := by
              unfold redirected at isNext
              repeat' split at isNext
              · cases isNext
              · cases isNext
              · exact parse_url_allowed isNext
            obtain ⟨few,later⟩ := ih allowedNext
            refine ⟨?_,fun one member => ?_⟩
            · simp only [List.length_append] at once ⊢
              omega
            · rcases List.mem_append.mp member with now | then_
              · exact first one now
              · exact later one then_
        · exact ⟨enough,first⟩
        · exact ⟨enough,first⟩

end Requests

/-- At most five redirects are followed, every request is for a web address without
    credentials, and it stays on the public internet exactly if no address of its host
    tunnels to one that is not public. -/
theorem fetch_stays_public (net : Internet) (value : String) :
    (fetch_inner net value).2.length ≤ MAX_REDIRECTS + 1 ∧ ∀ one ∈ (fetch_inner net value).2, (∃ hop, Checked net hop one) ∧
      (StaysPublic one ↔ ∀ address ∈ one.addresses, ¬ Tunnels address) := by
  have checked : (fetch_inner net value).2.length ≤ MAX_REDIRECTS + 1 ∧
      ∀ one ∈ (fetch_inner net value).2, ∃ hop, Checked net hop one := by
    unfold fetch_inner
    cases parsed : parse_url net value with
    | error e => exact ⟨Nat.zero_le _,nofun⟩
    | ok url => exact fetchFrom_checked MAX_REDIRECTS (parse_url_allowed parsed)
  refine ⟨checked.1,fun one member => ?_⟩
  obtain ⟨hop,isChecked⟩ := checked.2 one member
  exact ⟨⟨hop,isChecked⟩,forall₂_congr fun address among => safe_resolution_iff (isChecked.safe address among)⟩

def tunnelled : Internet where
  parse text := .ok ⟨text,"http","",none,some (.Domain,"example.com"),some 80⟩
  join _ location := .ok location
  lookup_host _ _ _ := .ok [.V6 (Ipv6Addr.new 0x2002 0x7f00 0x0001 0 0 0 0 1)]
  client _ := .ok ()
  send _ _ _ := .ok ⟨200,none,"secret"⟩
  page url response := .ok ⟨url.text,response.body⟩
  canonical_reason status := if status = 200 then some "OK" else none
theorem tunnel_requested : (fetch_inner tunnelled "http://example.com/").2 =
      [⟨⟨"http://example.com/","http","",none,some (.Domain,"example.com"),some 80⟩,
        [.V6 (Ipv6Addr.new 0x2002 0x7f00 0x0001 0 0 0 0 1)]⟩] ∧
      ¬ ∀ one ∈ (fetch_inner tunnelled "http://example.com/").2, StaysPublic one := by
  have sent : (fetch_inner tunnelled "http://example.com/").2 =
      [⟨⟨"http://example.com/","http","",none,some (.Domain,"example.com"),some 80⟩,
        [.V6 (Ipv6Addr.new 0x2002 0x7f00 0x0001 0 0 0 0 1)]⟩] := by decide
  refine ⟨sent,fun stays => ?_⟩
  rw [sent] at stays
  have isPublic := stays _ List.mem_cons_self _ List.mem_cons_self
  simp only [Public,Benchmark,and_false,or_false] at isPublic
  exact isPublic.embedded (Ipv4Addr.new 127 0 0 1) (by decide) (.new 127 0 0 0,8) (by decide) (by decide)

end MyCursor.WebFetch
