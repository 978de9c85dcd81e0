import Maxim.Admin.Publication.Lossless
import Maxim.Admin.Publication.Schedulable
import Maxim.Moderation.EventCooldown
import Maxim.Moderation.PhotoOrdering.Permit
import Maxim.Moderation.RevisionedMembership.Linear
import Maxim.Max.ActionLedger.CompletedSend
import Maxim.Max.ActionLedger.MemberExclusion
import Maxim.Moderation.MessageDuplicate.Evidence
import Maxim.Eraser.Limiter
import Maxim.Moderation.NightMode.Closure
import Maxim.Moderation.WebhookLease
import Maxim.Webhook.OutboxScan.Cycle
import Maxim.Webhook.DeferredScopes.Responsibility
import Maxim.Moderation.CommercialOcr.Admission.Conservation
import Maxim.Moderation.CommercialLlmPool.Contract
import Maxim.Moderation.AttachMarker.SendFence
import Maxim.Publisher.AutoReply.FloodGate.Contract
import Maxim.Publisher.AutoReply.BacklogQuota.Contract
import Maxim.Publisher.AutoReply.Delivery.OneAnswer
import Maxim.Admin.ManagedGiveaway.OneWay
import Maxim.Statistics.Ingest.Convergence
import Maxim.Admin.ManagedGiveaway.Draw.Commit
import Maxim.Admin.ManagedGiveaway.Winners.Rerolls
import Maxim.Admin.ManagedGiveaway.Notifications.Fence
import Maxim.Admin.ManagedPoll.Ballots
import Maxim.Moderation.NightMode.Components
import Maxim.Moderation.NightMode.RoundTrip
import Maxim.Moderation.MessageDuplicate.Recompression.Buckets
import Maxim.Moderation.MessageDuplicate.Qualification
import Maxim.Admin.VkAutopublish.Search
import Maxim.Moderation.SanctionStateLock.Sections
import Maxim.Moderation.RequiredSubscription.Once
import Maxim.Moderation.MessageDuplicate.HeavyAdmission
import Maxim.Max.ModerationApiBudget.Contract
import Maxim.Moderation.PhotoDuplicate.Replies
import Maxim.Moderation.PrivateControl.Codec
import Maxim.Moderation.BlockedWords.SelfMatch
import Maxim.Webhook.OutboxBatch.Merge
import Maxim.Webhook.PreparationAdmission
import Maxim.Moderation.PhotoDecodeGate
import Maxim.Moderation.PhotoAlbum.AlbumMatch
import Maxim.Webhook.LeasePlan
import Maxim.Max.TextMarkup.Exact
import Maxim.Max.Markdown.WellFormed
import Maxim.Common.BoundedResponse
import Maxim.Statistics.Selector
import Maxim.Common.MediaByteAdmission
import Maxim.Max.MediaUpload.Gif
import Maxim.Max.MediaUpload.Nal
