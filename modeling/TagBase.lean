import TagBase.Json.Entity
import TagBase.Proofs.Engine.ByName
import TagBase.Proofs.Engine.Growth
import TagBase.Proofs.Engine.Recompiling
import TagBase.Proofs.Engine.Resolution
import TagBase.Proofs.Engine.Shown
import TagBase.Proofs.Query.Presence
import TagBase.Proofs.Query.Spacing
import TagBase.Proofs.Query.Words
import TagBase.Proofs.Query.Writing
import TagBase.Proofs.Rule.Draining
import TagBase.Proofs.Store.Refusal
import TagBase.Proofs.Store.Copying
import TagBase.Proofs.Query.Unsupported
import TagBase.Proofs.Query.Pruning
import TagBase.Proofs.Query.Layout
import TagBase.Proofs.Query.Equality
import TagBase.Proofs.Rule.Index
import TagBase.Proofs.Store.Grouping
import TagBase.Settings
import TagBase.Proofs.Json.Laws
import TagBase.Proofs.Json.Fitting
import TagBase.Proofs.Json.RoundTrip
import TagBase.Proofs.Settings
import TagBase.Proofs.Engine.Shown
