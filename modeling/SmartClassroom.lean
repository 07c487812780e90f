import SmartClassroom.AuditTrail
import SmartClassroom.AutoPairing
import SmartClassroom.Available
import SmartClassroom.Bookings
import SmartClassroom.CalendarRuns
import SmartClassroom.Cancel
import SmartClassroom.Completion
import SmartClassroom.ConnectOrder
import SmartClassroom.ConnectTokens
import SmartClassroom.Consume
import SmartClassroom.Elapsed
import SmartClassroom.GpuMetrics
import SmartClassroom.HostEvents
import SmartClassroom.Issue
import SmartClassroom.MoonlightUrl
import SmartClassroom.OfflineRace
import SmartClassroom.Offsets
import SmartClassroom.Overlap
import SmartClassroom.Pins
import SmartClassroom.Privacy
import SmartClassroom.Published
import SmartClassroom.Reads
import SmartClassroom.RovingTabIndex
import SmartClassroom.Sessions
import SmartClassroom.Shortcuts
import SmartClassroom.Verified
