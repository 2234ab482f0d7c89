import LibMumble.MumbleProto.Reuse

/-! # The messages of Mumble

The classes of `Mumble.pb.cc`. Each has its fields in the order of the file, where they are numbered one
after the other; their names are above it. A default is a value, with which the field starts and to
which it is cleared. -/

namespace LibMumble.MumbleProto

variable {R : Runtime}

namespace Mumble

/-- `version`, `release`, `os`, `os_version`. -/
def version : MessageLite R := generated (.numbered 4
  [.scalar 1 false .uint32 0, .text 2 false, .text 3 false, .text 4 false] rfl (by decide))

/-- `packet`. -/
def udpTunnel : MessageLite R := generated (.numbered 1
  [.text 1 true] rfl (by decide))

/-- `username`, `password`, `tokens`, `celt_versions`, `opus`. -/
def authenticate : MessageLite R := generated (.numbered 5
  [.text 1 false, .text 2 false, .texts 3, .scalars 4 .int32, .scalar 5 false .bool false] rfl (by decide))

/-- `timestamp`, `good`, `late`, `lost`, `resync`, `udp_packets`, `tcp_packets`, `udp_ping_avg`,
`udp_ping_var`, `tcp_ping_avg`, `tcp_ping_var`. -/
def ping : MessageLite R := generated (.numbered 11
  [.scalar 1 false .uint64 0, .scalar 2 false .uint32 0, .scalar 3 false .uint32 0, .scalar 4 false .uint32 0,
    .scalar 5 false .uint32 0, .scalar 6 false .uint32 0, .scalar 7 false .uint32 0, .scalar 8 false .float 0,
    .scalar 9 false .float 0, .scalar 10 false .float 0, .scalar 11 false .float 0] rfl (by decide))

def rejectRejectType : List Int32 := [0, 1, 2, 3, 4, 5, 6, 7, 8]

/-- `type`, `reason`. -/
def reject : MessageLite R := generated (.numbered 2
  [.enum 1 rejectRejectType ⟨0, by decide⟩, .text 2 false] rfl (by decide))

/-- `max_bandwidth`, `welcome_text`, `allow_html`, `message_length`, `image_message_length`. -/
def serverConfig : MessageLite R := generated (.numbered 5
  [.scalar 1 false .uint32 0, .text 2 false, .scalar 3 false .bool false, .scalar 4 false .uint32 0,
    .scalar 5 false .uint32 0] rfl (by decide))

/-- `session`, `max_bandwidth`, `welcome_text`, `permissions`. -/
def serverSync : MessageLite R := generated (.numbered 4
  [.scalar 1 false .uint32 0, .scalar 2 false .uint32 0, .text 3 false,
    .scalar 4 false .uint64 0] rfl (by decide))

/-- `channel_id`. -/
def channelRemove : MessageLite R := generated (.numbered 1
  [.scalar 1 true .uint32 0] rfl (by decide))

/-- `channel_id`, `parent`, `name`, `links`, `description`, `links_add`, `links_remove`, `temporary`,
`position`, `description_hash`. -/
def channelState : MessageLite R := generated (.numbered 10
  [.scalar 1 false .uint32 0, .scalar 2 false .uint32 0, .text 3 false, .scalars 4 .uint32, .text 5 false,
    .scalars 6 .uint32, .scalars 7 .uint32, .scalar 8 false .bool false, .scalar 9 false .int32 0,
    .text 10 false] rfl (by decide))

/-- `session`, `actor`, `reason`, `ban`. -/
def userRemove : MessageLite R := generated (.numbered 4
  [.scalar 1 true .uint32 0, .scalar 2 false .uint32 0, .text 3 false,
    .scalar 4 false .bool false] rfl (by decide))

/-- `session`, `actor`, `name`, `user_id`, `channel_id`, `mute`, `deaf`, `suppress`, `self_mute`,
`self_deaf`, `texture`, `plugin_context`, `plugin_identity`, `comment`, `hash`, `comment_hash`,
`texture_hash`, `priority_speaker`, `recording`. -/
def userState : MessageLite R := generated (.numbered 19
  [.scalar 1 false .uint32 0, .scalar 2 false .uint32 0, .text 3 false, .scalar 4 false .uint32 0,
    .scalar 5 false .uint32 0, .scalar 6 false .bool false, .scalar 7 false .bool false,
    .scalar 8 false .bool false, .scalar 9 false .bool false, .scalar 10 false .bool false, .text 11 false,
    .text 12 false, .text 13 false, .text 14 false, .text 15 false, .text 16 false, .text 17 false,
    .scalar 18 false .bool false, .scalar 19 false .bool false] rfl (by decide))

/-- `address`, `mask`, `name`, `hash`, `reason`, `start`, `duration`. -/
def banListBanEntry : MessageLite R := generated (.numbered 7
  [.text 1 true, .scalar 2 true .uint32 0, .text 3 false, .text 4 false, .text 5 false, .text 6 false,
    .scalar 7 false .uint32 0] rfl (by decide))

/-- `bans`, `query`. -/
def banList : MessageLite R := generated (.numbered 2
  [.messages 1 banListBanEntry, .scalar 2 false .bool false] rfl (by decide))

/-- `actor`, `session`, `channel_id`, `tree_id`, `message`. -/
def textMessage : MessageLite R := generated (.numbered 5
  [.scalar 1 false .uint32 0, .scalars 2 .uint32, .scalars 3 .uint32, .scalars 4 .uint32,
    .text 5 true] rfl (by decide))

def permissionDeniedDenyType : List Int32 := [0, 1, 2, 3, 4, 5, 6, 7, 8, 9, 10]

/-- `permission`, `channel_id`, `session`, `reason`, `type`, `name`. -/
def permissionDenied : MessageLite R := generated (.numbered 6
  [.scalar 1 false .uint32 0, .scalar 2 false .uint32 0, .scalar 3 false .uint32 0, .text 4 false,
    .enum 5 permissionDeniedDenyType ⟨0, by decide⟩, .text 6 false] rfl (by decide))

/-- `name`, `inherited`, `inherit`, `inheritable`, `add`, `remove`, `inherited_members`. -/
def aclChanGroup : MessageLite R := generated (.numbered 7
  [.text 1 true, .scalar 2 false .bool true, .scalar 3 false .bool true, .scalar 4 false .bool true,
    .scalars 5 .uint32, .scalars 6 .uint32, .scalars 7 .uint32] rfl (by decide))

/-- `apply_here`, `apply_subs`, `inherited`, `user_id`, `group`, `grant`, `deny`. -/
def aclChanACL : MessageLite R := generated (.numbered 7
  [.scalar 1 false .bool true, .scalar 2 false .bool true, .scalar 3 false .bool true,
    .scalar 4 false .uint32 0, .text 5 false, .scalar 6 false .uint32 0,
    .scalar 7 false .uint32 0] rfl (by decide))

/-- `channel_id`, `inherit_acls`, `groups`, `acls`, `query`. -/
def acl : MessageLite R := generated (.numbered 5
  [.scalar 1 true .uint32 0, .scalar 2 false .bool true, .messages 3 aclChanGroup, .messages 4 aclChanACL,
    .scalar 5 false .bool false] rfl (by decide))

/-- `ids`, `names`. -/
def queryUsers : MessageLite R := generated (.numbered 2
  [.scalars 1 .uint32, .texts 2] rfl (by decide))

/-- `key`, `client_nonce`, `server_nonce`. -/
def cryptSetup : MessageLite R := generated (.numbered 3
  [.text 1 false, .text 2 false, .text 3 false] rfl (by decide))

def contextActionModifyOperation : List Int32 := [0, 1]

/-- `action`, `text`, `context`, `operation`. -/
def contextActionModify : MessageLite R := generated (.numbered 4
  [.text 1 true, .text 2 false, .scalar 3 false .uint32 0,
    .enum 4 contextActionModifyOperation ⟨0, by decide⟩] rfl (by decide))

/-- `session`, `channel_id`, `action`. -/
def contextAction : MessageLite R := generated (.numbered 3
  [.scalar 1 false .uint32 0, .scalar 2 false .uint32 0, .text 3 true] rfl (by decide))

/-- `user_id`, `name`, `last_seen`, `last_channel`. -/
def userListUser : MessageLite R := generated (.numbered 4
  [.scalar 1 true .uint32 0, .text 2 false, .text 3 false, .scalar 4 false .uint32 0] rfl (by decide))

/-- `users`. -/
def userList : MessageLite R := generated (.numbered 1
  [.messages 1 userListUser] rfl (by decide))

/-- `session`, `channel_id`, `group`, `links`, `children`. -/
def voiceTargetTarget : MessageLite R := generated (.numbered 5
  [.scalars 1 .uint32, .scalar 2 false .uint32 0, .text 3 false, .scalar 4 false .bool false,
    .scalar 5 false .bool false] rfl (by decide))

/-- `id`, `targets`. -/
def voiceTarget : MessageLite R := generated (.numbered 2
  [.scalar 1 false .uint32 0, .messages 2 voiceTargetTarget] rfl (by decide))

/-- `channel_id`, `permissions`, `flush`. -/
def permissionQuery : MessageLite R := generated (.numbered 3
  [.scalar 1 false .uint32 0, .scalar 2 false .uint32 0, .scalar 3 false .bool false] rfl (by decide))

/-- `alpha`, `beta`, `prefer_alpha`, `opus`. -/
def codecVersion : MessageLite R := generated (.numbered 4
  [.scalar 1 true .int32 0, .scalar 2 true .int32 0, .scalar 3 true .bool true,
    .scalar 4 false .bool false] rfl (by decide))

/-- `good`, `late`, `lost`, `resync`. -/
def userStatsStats : MessageLite R := generated (.numbered 4
  [.scalar 1 false .uint32 0, .scalar 2 false .uint32 0, .scalar 3 false .uint32 0,
    .scalar 4 false .uint32 0] rfl (by decide))

/-- `session`, `stats_only`, `certificates`, `from_client`, `from_server`, `udp_packets`, `tcp_packets`,
`udp_ping_avg`, `udp_ping_var`, `tcp_ping_avg`, `tcp_ping_var`, `version`, `celt_versions`, `address`,
`bandwidth`, `onlinesecs`, `idlesecs`, `strong_certificate`, `opus`. -/
def userStats : MessageLite R := generated (.numbered 19
  [.scalar 1 false .uint32 0, .scalar 2 false .bool false, .texts 3, .message 4 userStatsStats,
    .message 5 userStatsStats, .scalar 6 false .uint32 0, .scalar 7 false .uint32 0, .scalar 8 false .float 0,
    .scalar 9 false .float 0, .scalar 10 false .float 0, .scalar 11 false .float 0, .message 12 version,
    .scalars 13 .int32, .text 14 false, .scalar 15 false .uint32 0, .scalar 16 false .uint32 0,
    .scalar 17 false .uint32 0, .scalar 18 false .bool false, .scalar 19 false .bool false] rfl (by decide))

/-- `version`, `positional`, `push_to_talk`. -/
def suggestConfig : MessageLite R := generated (.numbered 3
  [.scalar 1 false .uint32 0, .scalar 2 false .bool false, .scalar 3 false .bool false] rfl (by decide))

/-- `session_texture`, `session_comment`, `channel_description`. -/
def requestBlob : MessageLite R := generated (.numbered 3
  [.scalars 1 .uint32, .scalars 2 .uint32, .scalars 3 .uint32] rfl (by decide))

/-- **The classes.** -/
def classes : List (MessageLite R) :=
  [version, udpTunnel, authenticate, ping, reject, serverConfig, serverSync, channelRemove, channelState,
    userRemove, userState, banListBanEntry, banList, textMessage, permissionDenied, aclChanGroup, aclChanACL,
    acl, queryUsers, cryptSetup, contextActionModify, contextAction, userListUser, userList,
    voiceTargetTarget, voiceTarget, permissionQuery, codecVersion, userStatsStats, userStats, suggestConfig,
    requestBlob]

/-! ### Their contract -/

/-- What a class has if the classes of its fields have it, all classes have. -/
theorem forall_classes {P : MessageLite R → Prop}
    (h : ∀ F : Fields R, (∀ f ∈ F.list, ∀ C ∈ f.messageClass, P C) → P (generated F)) :
    ∀ C ∈ classes, P C := by
  have hflat : ∀ {F : Fields R}, F.list.all (fun f => f.messageClass.isNone) = true →
      P (generated F) := by
    intro F hF
    refine h F fun f hf C hC => ?_
    have hnone := List.all_eq_true.mp hF f hf
    rw [Option.isNone_iff_eq_none.mp hnone] at hC
    cases hC
  have hentry : P banListBanEntry := hflat rfl
  have hgroup : P aclChanGroup := hflat rfl
  have hchanACL : P aclChanACL := hflat rfl
  have huser : P userListUser := hflat rfl
  have htarget : P voiceTargetTarget := hflat rfl
  have hstats : P userStatsStats := hflat rfl
  have hversion : P version := hflat rfl
  have hbanList : P banList := h _ (by simpa [Fields.numbered, Field.messageClass] using hentry)
  have hacl : P acl := h _ (by simpa [Fields.numbered, Field.messageClass] using ⟨hgroup, hchanACL⟩)
  have huserList : P userList := h _ (by simpa [Fields.numbered, Field.messageClass] using huser)
  have hvoiceTarget : P voiceTarget := h _ (by simpa [Fields.numbered, Field.messageClass] using htarget)
  have huserStats : P userStats :=
    h _ (by simpa [Fields.numbered, Field.messageClass] using ⟨hstats, hversion⟩)
  simp only [classes, List.forall_mem_cons]
  exact ⟨hflat rfl, hflat rfl, hflat rfl, hflat rfl, hflat rfl, hflat rfl, hflat rfl, hflat rfl,
    hflat rfl, hflat rfl, hflat rfl, hflat rfl, hbanList, hflat rfl, hflat rfl, hflat rfl, hflat rfl,
    hacl, hflat rfl, hflat rfl, hflat rfl, hflat rfl, hflat rfl, huserList, hflat rfl, hvoiceTarget,
    hflat rfl, hflat rfl, hflat rfl, huserStats, hflat rfl, hflat rfl, List.forall_mem_nil _⟩

/-- **What a class writes, it reads**: as many bytes as it has counted, and whoever parses them into a message
of his own has merged the other one into it. -/
theorem parse_serialize {C : MessageLite R} (hC : C ∈ classes) (v : C.Val)
    (hv : (C.byteSize v).1 < 2 ^ 31) :
    (C.serializeWithCachedSizes (C.byteSize v).2).length = (C.byteSize v).1 ∧
      ∀ w s, R.bytes s = C.serializeWithCachedSizes (C.byteSize v).2 →
        ∃ s', C.mergePartialFromCodedStream w s = .done (C.mergeFrom w v) s' ∧ R.bytes s' = [] ∧
          R.consumedEntireMessage s' = true := by
  have hlaw : C.Lawful := forall_classes (fun _ => lawful_generated) C hC
  exact ⟨hlaw.length_serialize v hv, fun _ _ hs => hlaw.means v hv hs⟩

/-- A version with the number 7. -/
def seven : (version : MessageLite listRuntime).Val :=
  Message.set Message.new ⟨0, by decide⟩ ⟨true, (7 : UInt32)⟩

theorem parse_serialize_version :
    ∃ s', (version : MessageLite listRuntime).mergePartialFromCodedStream Message.new ⟨[8, 7], false⟩ =
      .done (version.mergeFrom Message.new seven) s' ∧ s'.bytes = [] ∧ s'.ended = true :=
  (parse_serialize List.mem_cons_self seven (by decide)).2 _ _ rfl

/-- A user with an id and a name. -/
def user (id : UInt32) (name : List UInt8) : (userListUser : MessageLite listRuntime).Val :=
  Message.set (Message.set Message.new ⟨0, by decide⟩ ⟨true, id⟩) ⟨1, by decide⟩ ⟨true, name⟩

def users (l : List (userListUser : MessageLite listRuntime).Val) :
    (userList : MessageLite listRuntime).Val :=
  Message.set Message.new ⟨0, by decide⟩ ⟨l, []⟩

end Mumble

end LibMumble.MumbleProto
