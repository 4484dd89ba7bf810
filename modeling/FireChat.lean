import FireChat.Library.Transition
import FireChat.Library.Replay
import FireChat.Model
import FireChat.Proofs.Decoding
import FireChat.Proofs.Delivery
import FireChat.Proofs.Mirroring
import FireChat.Proofs.Reporting
import FireChat.Proofs.Addressing
import FireChat.Proofs.RecentMessages
import FireChat.Library.Keyed
import FireChat.Chat
import FireChat.Proofs.ChatScreen
import FireChat.Inbox
import FireChat.Proofs.Inbox
import FireChat.Proofs.Convergence
import FireChat.Proofs.Isolation
import FireChat.Registration
import FireChat.Proofs.Registration
import FireChat.Proofs.Accounts
import FireChat.App
import FireChat.Proofs.Passwords
import FireChat.Proofs.Secrecy
import FireChat.Cells
import FireChat.Forms
import FireChat.Proofs.Cells
import FireChat.Proofs.Forms
import FireChat.NewMessage
import FireChat.Proofs.Search
import FireChat.Proofs.Contacts
import FireChat.Composer
import FireChat.Proofs.Composer
import FireChat.Overlay
import FireChat.Proofs.Overlay
import FireChat.Proofs.RowIndices
import FireChat.Proofs.Refold
import FireChat.Proofs.RowOrder
import FireChat.Core.Query
import FireChat.Core.EventManager
import FireChat.Proofs.ChangeSets
import FireChat.Proofs.DocumentChanges
import FireChat.Proofs.Emissions
import FireChat.Proofs.Listening
import FireChat.Proofs.ListeningProgress
import FireChat.Core.LocalStore
import FireChat.Core.SyncEngine
import FireChat.Proofs.Backing
import FireChat.Proofs.Coherence
import FireChat.Proofs.Conversations
import FireChat.Proofs.Compensation
import FireChat.Proofs.SignOut
import FireChat.Core.LlrbNode
import FireChat.Library.Cut
import FireChat.Proofs.LlrbNodes
import FireChat.Core.DocumentSet
import FireChat.Proofs.DocumentSets
import FireChat.Proofs.LlrbDepths
import FireChat.Core.RemoteDocumentCache
import FireChat.Proofs.RemoteDocumentCaches
